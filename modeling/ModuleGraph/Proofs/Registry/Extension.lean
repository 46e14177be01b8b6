import ModuleGraph.Proofs.Registry.Population
import ModuleGraph.Proofs.Registry.Refusals

/-!
# Registries that grow

No operation takes anything back, be it refused or not: classes and resources keep their numbers,
and what their entries say stays (`Registry.extends_run`). Of a class this is its name, its
references and its definition once there is one; of a resource it is its path, its size and its
descriptor, where new providers come last. A placeholder may thus be defined later, under the number
that it has (`Registry.register_of_placeholder`).

Operations are made of few changes: a class or a resource is added at the end of its array, or one
entry is changed in its place. So the entries are compared place by place (`Placed`).
-/

namespace ModuleGraph

/-! ## Items that keep their places -/

section

variable {α : Type} {R : α → α → Prop} {items items' items'' : Array α}

/-- Every item of the first array has one in its place in the second array that it is related to. -/
def Placed (R : α → α → Prop) (items items' : Array α) : Prop :=
  ∀ (i : Nat) a, items[i]? = some a → ∃ b, items'[i]? = some b ∧ R a b

theorem Placed.refl (hrefl : ∀ a, R a a) (items : Array α) : Placed R items items :=
  fun _ a ha => ⟨a, ha, hrefl a⟩

theorem Placed.trans (htrans : ∀ {a b c}, R a b → R b c → R a c) (h₁ : Placed R items items')
    (h₂ : Placed R items' items'') : Placed R items items'' := by
  intro i a ha
  obtain ⟨b, hb, hab⟩ := h₁ i a ha
  obtain ⟨c, hc, hbc⟩ := h₂ i b hb
  exact ⟨c, hc, htrans hab hbc⟩

theorem Placed.push (hrefl : ∀ a, R a a) (items : Array α) (a : α) :
    Placed R items (items.push a) := by
  intro i b hb
  have hi : i ≠ items.size := Nat.ne_of_lt (Array.getElem?_eq_some_iff.1 hb).1
  exact ⟨b, by rw [Array.getElem?_push, if_neg hi, hb], hrefl b⟩

theorem Placed.modify (hrefl : ∀ a, R a a) {f : α → α} {i : Nat}
    (hf : ∀ a, items[i]? = some a → R a (f a)) : Placed R items (items.modify i f) := by
  intro j a ha
  rw [Array.getElem?_modify]
  split_ifs with hij
  · subst hij
    exact ⟨f a, by rw [ha, Option.map_some], hf a ha⟩
  · exact ⟨a, ha, hrefl a⟩

theorem Placed.lt_size (h : Placed R items items') {i : Nat} (hi : i < items.size) :
    i < items'.size := by
  obtain ⟨b, hb, -⟩ := h i _ (Array.getElem?_eq_getElem hi)
  exact (Array.getElem?_eq_some_iff.1 hb).1

end

/-- A new name takes none away. -/
theorem getElem?_insert_of_eq_none {index : Std.TreeMap String Nat} {new name : String} {i n : Nat}
    (hnew : index[new]? = none) (h : index[name]? = some i) :
    (index.insert new n)[name]? = some i := by
  rw [treeMap_getElem?_insert, if_neg, h]
  rintro rfl
  rw [hnew] at h
  cases h

/-! ## Entries -/

namespace ServiceDescriptor

variable {descriptor descriptor' extended : ServiceDescriptor}

/-- The service stays the same, and providers are added at the end. -/
structure Grows (descriptor descriptor' : ServiceDescriptor) : Prop where
  service : descriptor'.service = descriptor.service
  providers : descriptor.providers <+: descriptor'.providers

theorem Grows.refl (descriptor : ServiceDescriptor) : descriptor.Grows descriptor :=
  ⟨rfl, List.prefix_refl _⟩

theorem Grows.trans (h₁ : descriptor.Grows descriptor') (h₂ : descriptor'.Grows extended) :
    descriptor.Grows extended :=
  ⟨h₂.service.trans h₁.service, h₁.providers.trans h₂.providers⟩

/-- A provider that is listed already is not listed again. -/
theorem ends_addProviderAt (descriptor : ServiceDescriptor) (path : String) (n : Nat)
    (provider : String) :
    Ends (descriptor.addProviderAt path n provider)
      (fun extended => descriptor.Grows extended ∧
        (descriptor.providers.Nodup → extended.providers.Nodup))
      fun _ => True := by
  unfold addProviderAt
  split_ifs with hlegal hknown
  · trivial
  · exact ⟨.refl descriptor, id⟩
  · refine ⟨⟨rfl, List.prefix_append _ _⟩, fun hnodup => ?_⟩
    rw [List.nodup_append_comm, List.singleton_append, List.nodup_cons]
    exact ⟨by simpa using hknown, hnodup⟩

end ServiceDescriptor

namespace ClassEntry

variable {entry entry' entry'' : ClassEntry}

/-- What an entry says of a class is said by the second one, too. -/
structure Grows (entry entry' : ClassEntry) : Prop where
  name : entry'.name = entry.name
  references : ∀ c ∈ entry.references, c ∈ entry'.references
  referrers : ∀ c ∈ entry.referrers, c ∈ entry'.referrers
  definition : entry.isDefined = true → entry'.isDefined = true ∧
    entry'.isPublic = entry.isPublic ∧ entry'.size = entry.size ∧ entry'.package = entry.package

theorem Grows.refl (entry : ClassEntry) : entry.Grows entry :=
  ⟨rfl, fun _ => id, fun _ => id, fun h => ⟨h, rfl, rfl, rfl⟩⟩

theorem Grows.trans (h₁ : entry.Grows entry') (h₂ : entry'.Grows entry'') :
    entry.Grows entry'' where
  name := h₂.name.trans h₁.name
  references c hc := h₂.references c (h₁.references c hc)
  referrers c hc := h₂.referrers c (h₁.referrers c hc)
  definition h := by
    obtain ⟨hdefined, hpublic, hsize, hpackage⟩ := h₁.definition h
    obtain ⟨hdefined', hpublic', hsize', hpackage'⟩ := h₂.definition hdefined
    exact ⟨hdefined', hpublic'.trans hpublic, hsize'.trans hsize, hpackage'.trans hpackage⟩

/-- A definition changes nothing that has been said, if there has been none before. -/
theorem grows_define (record : ClassRecord) (h : entry.isDefined = false) :
    entry.Grows (Registry.define record entry) where
  name := rfl
  references _ := id
  referrers _ := id
  definition htrue := by
    rw [h] at htrue
    cases htrue

end ClassEntry

namespace ResourceEntry

variable {entry entry' entry'' : ResourceEntry}

/-- Path and size stay the same, and a descriptor does so but for new providers. -/
structure Grows (entry entry' : ResourceEntry) : Prop where
  path : entry'.path = entry.path
  size : entry'.size = entry.size
  service : ∀ descriptor, entry.service = some descriptor →
    ∃ descriptor', entry'.service = some descriptor' ∧ descriptor.Grows descriptor'

theorem Grows.refl (entry : ResourceEntry) : entry.Grows entry :=
  ⟨rfl, rfl, fun descriptor h => ⟨descriptor, h, .refl descriptor⟩⟩

theorem Grows.trans (h₁ : entry.Grows entry') (h₂ : entry'.Grows entry'') :
    entry.Grows entry'' where
  path := h₂.path.trans h₁.path
  size := h₂.size.trans h₁.size
  service descriptor h := by
    obtain ⟨descriptor', h', hgrows⟩ := h₁.service descriptor h
    obtain ⟨descriptor'', h'', hgrows'⟩ := h₂.service descriptor' h'
    exact ⟨descriptor'', h'', hgrows.trans hgrows'⟩

end ResourceEntry

namespace Registry

variable {registry registry' registry'' : Registry}

/-! ## Inversion -/

/-- A resource is refused, or it is new and is added at the end. -/
theorem fst_addResource_cases (registry : Registry) (path : String) (size : Nat)
    (contents : Option String) :
    (registry.addResource path size contents).1 = registry ∨
      isResource (slashed path) = true ∧ registry.findResource (slashed path) = none ∧
        ∃ service, descriptorOf (slashed path) contents = .ok service ∧
          (registry.addResource path size contents).1 = { registry with
            resources := registry.resources.push { path := slashed path, size, service }
            resourceIndex :=
              registry.resourceIndex.insert (slashed path) registry.resources.size } := by
  cases hadd : registry.addResource path size contents with
  | mk added result =>
    cases result with
    | error e =>
      have hsame := fst_addResource_of_error (congrArg Prod.snd hadd)
      rw [hadd] at hsame
      exact .inl hsame
    | ok r => exact .inr (exists_of_addResource_ok hadd)

/-- A resource gets a descriptor, and that is extended if the provider is accepted. -/
theorem fst_extendDescriptor_cases (registry : Registry) (r : ResourceId) (provider : String) :
    (registry.extendDescriptor r provider).1 = registry.ensureDescriptor r ∨
      ∃ entry descriptor extended, (registry.ensureDescriptor r).resources[r]? = some entry ∧
        entry.service = some descriptor ∧
        descriptor.addProvider entry.path provider = .ok extended ∧
        (registry.extendDescriptor r provider).1 = { registry.ensureDescriptor r with
          resources := (registry.ensureDescriptor r).resources.modify r fun entry =>
            { entry with service := some extended } } := by
  unfold extendDescriptor
  dsimp only
  split
  · exact .inl rfl
  · rename_i path descriptor hfound
    obtain ⟨entry, hentry, hservice⟩ := Option.bind_eq_some_iff.1 hfound
    obtain ⟨_, hdescriptor, hpair⟩ := Option.map_eq_some_iff.1 hservice
    cases hpair
    split
    · exact .inl rfl
    · rename_i extended hadd
      exact .inr ⟨entry, descriptor, extended, hentry, hdescriptor, hadd, rfl⟩

/-- The resource of a provider is known, or it is added first. -/
theorem exists_addProvider (registry : Registry) (path provider : String) :
    ∃ base r, (base = registry ∨ base = (registry.addResource path 0 none).1) ∧
      ((registry.addProvider path provider).1 = base ∨
        (registry.addProvider path provider).1 = (base.extendDescriptor r provider).1) := by
  unfold addProvider
  split
  · rename_i r _
    exact ⟨registry, r, .inl rfl, .inr rfl⟩
  · split
    · rename_i added e hadd
      exact ⟨added, 0, .inr (by rw [hadd]), .inl rfl⟩
    · rename_i added r hadd
      exact ⟨added, r, .inr (by rw [hadd]), .inr rfl⟩

/-! ## What stays -/

/-- Classes and resources keep their numbers, and what their entries say stays. -/
structure Extends (registry registry' : Registry) : Prop where
  classes : Placed ClassEntry.Grows registry.classes registry'.classes
  resources : Placed ResourceEntry.Grows registry.resources registry'.resources
  findClass : ∀ {name c}, registry.findClass name = some c → registry'.findClass name = some c
  findResource : ∀ {path r}, registry.findResource path = some r →
    registry'.findResource path = some r

theorem Extends.refl (registry : Registry) : registry.Extends registry :=
  ⟨.refl .refl _, .refl .refl _, id, id⟩

theorem Extends.trans (h₁ : registry.Extends registry') (h₂ : registry'.Extends registry'') :
    registry.Extends registry'' :=
  ⟨h₁.classes.trans .trans h₂.classes, h₁.resources.trans .trans h₂.resources,
    fun h => h₂.findClass (h₁.findClass h), fun h => h₂.findResource (h₁.findResource h)⟩

theorem extends_modifyClass (registry : Registry) {f : ClassEntry → ClassEntry} {c : ClassId}
    (hf : ∀ entry, registry.classes[c]? = some entry → entry.Grows (f entry)) :
    registry.Extends { registry with classes := registry.classes.modify c f } :=
  { Extends.refl registry with classes := .modify .refl hf }

theorem extends_modifyResource (registry : Registry) {f : ResourceEntry → ResourceEntry}
    {r : ResourceId}
    (hf : ∀ entry, registry.resources[r]? = some entry → entry.Grows (f entry)) :
    registry.Extends { registry with resources := registry.resources.modify r f } :=
  { Extends.refl registry with resources := .modify .refl hf }

theorem extends_intern (registry : Registry) (name : String) :
    registry.Extends (registry.intern name).1 := by
  unfold intern
  split
  · exact .refl registry
  · rename_i hnew
    exact { Extends.refl registry with
      classes := .push .refl _ _
      findClass := getElem?_insert_of_eq_none hnew }

theorem extends_addReference (registry : Registry) (source target : ClassId) :
    registry.Extends (registry.addReference source target) := by
  unfold addReference
  split_ifs
  · exact .refl registry
  · have hsource := extends_modifyClass registry (c := source)
      (f := fun entry => { entry with references := entry.references.insert target })
      fun entry _ => { ClassEntry.Grows.refl entry with
        references := fun _ hc => Std.TreeSet.mem_insert.2 (.inr hc) }
    exact hsource.trans (extends_modifyClass _
      (f := fun entry => { entry with referrers := entry.referrers.insert source })
      fun entry _ => { ClassEntry.Grows.refl entry with
        referrers := fun _ hc => Std.TreeSet.mem_insert.2 (.inr hc) })

theorem extends_addReferences (registry : Registry) (source : ClassId) (targets : List String) :
    registry.Extends (registry.addReferences source targets) := by
  unfold addReferences
  induction targets generalizing registry with
  | nil => exact .refl registry
  | cons target targets ih =>
    exact ((extends_intern registry target).trans (extends_addReference _ source _)).trans (ih _)

theorem extends_register (registry : Registry) (record : ClassRecord) :
    registry.Extends (registry.register record).1 := by
  have hintern := extends_intern registry record.name
  unfold register
  dsimp only
  split_ifs with hdefined
  · exact hintern
  · have hdefine := extends_modifyClass (registry.intern record.name).1
      (c := (registry.intern record.name).2) (f := define record) fun entry hentry =>
        ClassEntry.grows_define record (by simpa [hentry] using hdefined)
    exact (hintern.trans hdefine).trans (extends_addReferences _ _ record.references)

theorem extends_addResource (registry : Registry) (path : String) (size : Nat)
    (contents : Option String) : registry.Extends (registry.addResource path size contents).1 := by
  obtain hsame | ⟨-, hnew, service, -, hadded⟩ := fst_addResource_cases registry path size contents
  · rw [hsame]
    exact .refl registry
  · rw [hadded]
    exact { Extends.refl registry with
      resources := .push .refl _ _
      findResource := getElem?_insert_of_eq_none hnew }

theorem extends_extendDescriptor (registry : Registry) (r : ResourceId) (provider : String) :
    registry.Extends (registry.extendDescriptor r provider).1 := by
  have hensured : registry.Extends (registry.ensureDescriptor r) :=
    extends_modifyResource registry fun entry _ => ⟨rfl, rfl, fun descriptor hdescriptor =>
      ⟨descriptor, by rw [hdescriptor, Option.getD_some], .refl descriptor⟩⟩
  obtain hsame | ⟨entry, descriptor, extended, hentry, hdescriptor, hadd, hextended⟩ :=
    fst_extendDescriptor_cases registry r provider
  · rw [hsame]
    exact hensured
  · rw [hextended]
    refine hensured.trans (extends_modifyResource _ fun other hother => ⟨rfl, rfl, fun d hd => ?_⟩)
    -- the descriptor that is replaced is the one that has been extended
    cases hentry.symm.trans hother
    cases hdescriptor.symm.trans hd
    have hends := ServiceDescriptor.ends_addProviderAt descriptor entry.path 0 provider
    exact ⟨extended, rfl, (hends.of_ok hadd).1⟩

theorem extends_addProvider (registry : Registry) (path provider : String) :
    registry.Extends (registry.addProvider path provider).1 := by
  obtain ⟨base, r, hbase, hresult⟩ := exists_addProvider registry path provider
  have hextends : registry.Extends base := by
    obtain hsame | hadded := hbase
    · rw [hsame]
      exact .refl registry
    · rw [hadded]
      exact extends_addResource registry path 0 none
  obtain hsame | hextended := hresult
  · rw [hsame]
    exact hextends
  · rw [hextended]
    exact hextends.trans (extends_extendDescriptor base r provider)

theorem extends_run (registry : Registry) (operation : Operation) :
    registry.Extends (operation.run registry) := by
  cases operation with
  | intern name => exact extends_intern registry name
  | register record => exact extends_register registry record
  | addReference source target => exact extends_addReference registry source target
  | addReferenceByName source target =>
    exact ((extends_intern registry source).trans (extends_intern _ target)).trans
      (extends_addReference _ _ _)
  | addResource path size contents => exact extends_addResource registry path size contents
  | addProvider path provider => exact extends_addProvider registry path provider

/-- A placeholder is registered under its number. It keeps its references, and its entry says what
the record does. -/
theorem register_of_placeholder {record : ClassRecord} {c : ClassId} {entry : ClassEntry}
    (hfind : registry.findClass record.name = some c) (hentry : registry.classes[c]? = some entry)
    (hdefined : entry.isDefined = false) :
    (registry.register record).2 = .ok c ∧
      ∃ entry', (registry.register record).1.classes[c]? = some entry' ∧ entry.Grows entry' ∧
        entry'.isDefined = true ∧ entry'.isPublic = record.isPublic ∧ entry'.size = record.size ∧
          entry'.package = record.package.getD entry.package := by
  have hintern : registry.intern record.name = (registry, c) := by
    unfold intern
    rw [hfind]
  unfold register
  rw [hintern]
  dsimp only
  rw [hentry, Option.any_some, hdefined, if_neg Bool.false_ne_true]
  refine ⟨rfl, ?_⟩
  have hdefine : (registry.classes.modify c (define record))[c]? = some (define record entry) := by
    rw [Array.getElem?_modify, if_pos rfl, hentry, Option.map_some]
  obtain ⟨entry', hentry', hgrows⟩ := (extends_addReferences
    { registry with classes := registry.classes.modify c (define record) } c
    record.references).classes c _ hdefine
  exact ⟨entry', hentry', (ClassEntry.grows_define record hdefined).trans hgrows,
    hgrows.definition rfl⟩

end Registry

end ModuleGraph

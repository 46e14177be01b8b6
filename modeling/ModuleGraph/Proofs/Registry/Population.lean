import ModuleGraph.Proofs.Index
import ModuleGraph.Proofs.Registry.Owners
import ModuleGraph.Registry.Classes
import ModuleGraph.Registry.Resources

/-!
# Registries as they are filled

`Registry.Operation` lists the ways in which a registry is filled before a build. Each of them keeps
what is there (`Registry.Keeps`), also when it is refused: names and paths still tell entries apart
(`Registry.WellFormed`), nothing gets or loses an owner, and a class that is known stays known. So
whatever a build begins with is well-formed and has no owners (`Registry.pristine_populate`).
-/

namespace ModuleGraph

namespace Registry

variable {registry registry' registry'' : Registry}

/-- Classes are found by their names and resources by their paths. -/
structure WellFormed (registry : Registry) : Prop where
  classes : IndexedBy ClassEntry.name registry.classes registry.classIndex
  resources : IndexedBy ResourceEntry.path registry.resources registry.resourceIndex

/-- A registry that a build may begin with: well-formed, and nothing in it has an owner. -/
structure Pristine (registry : Registry) : Prop where
  wellFormed : registry.WellFormed
  unowned : registry.Unowned

theorem pristine_empty : ({} : Registry).Pristine :=
  ⟨⟨indexedBy_empty _, indexedBy_empty _⟩, by simp [classOwner], by simp [resourceOwner]⟩

/-! ## What an operation keeps -/

/-- The second registry has the owners of the first one, and knows of a class what that one knows:
its name, and its definition if there is one. -/
structure Keeps (registry registry' : Registry) : Prop where
  wellFormed : registry.WellFormed → registry'.WellFormed
  classOwner : ∀ c, registry'.classOwner c = registry.classOwner c
  resourceOwner : ∀ r, registry'.resourceOwner r = registry.resourceOwner r
  exists_class : ∀ {c : ClassId} {entry}, registry.classes[c]? = some entry →
    ∃ entry', registry'.classes[c]? = some entry' ∧ entry'.name = entry.name ∧
      (entry.isDefined = true → entry'.isDefined = true)

theorem Keeps.refl (registry : Registry) : registry.Keeps registry :=
  ⟨id, fun _ => rfl, fun _ => rfl, fun he => ⟨_, he, rfl, id⟩⟩

theorem Keeps.trans (h₁ : registry.Keeps registry') (h₂ : registry'.Keeps registry'') :
    registry.Keeps registry'' where
  wellFormed h := h₂.wellFormed (h₁.wellFormed h)
  classOwner c := (h₂.classOwner c).trans (h₁.classOwner c)
  resourceOwner r := (h₂.resourceOwner r).trans (h₁.resourceOwner r)
  exists_class he := by
    obtain ⟨entry', he', hname', hdefined'⟩ := h₁.exists_class he
    obtain ⟨entry'', he'', hname'', hdefined''⟩ := h₂.exists_class he'
    exact ⟨entry'', he'', hname''.trans hname', fun h => hdefined'' (hdefined' h)⟩

theorem Keeps.pristine (h : registry.Keeps registry') (hp : registry.Pristine) :
    registry'.Pristine where
  wellFormed := h.wellFormed hp.wellFormed
  unowned := ⟨fun c => (h.classOwner c).trans (hp.unowned.classOwner c),
    fun r => (h.resourceOwner r).trans (hp.unowned.resourceOwner r)⟩

/-- The owner of an item is not changed by a change of other things. -/
theorem bind_owner_modify {α : Type} {owner : α → Option ModuleId} {f : α → α}
    (hf : ∀ a, owner (f a) = owner a) (items : Array α) (i j : Nat) :
    ((items.modify i f)[j]?).bind owner = (items[j]?).bind owner := by
  rw [Array.getElem?_modify]
  split_ifs
  · rw [Option.bind_map]
    exact congrArg _ (funext hf)
  · rfl

/-- A new item without an owner brings no owner. -/
theorem bind_owner_push {α : Type} {owner : α → Option ModuleId} (items : Array α) {a : α}
    (ha : owner a = none) (i : Nat) : ((items.push a)[i]?).bind owner = (items[i]?).bind owner := by
  rw [Array.getElem?_push]
  split_ifs with hi
  · simp [hi, ha]
  · rfl

/-- A class entry changes in neither name nor owner, and stays defined. -/
theorem keeps_modifyClass {f : ClassEntry → ClassEntry}
    (hname : ∀ entry, (f entry).name = entry.name) (howner : ∀ entry, (f entry).owner = entry.owner)
    (hdefined : ∀ entry, entry.isDefined = true → (f entry).isDefined = true) (registry : Registry)
    (c : ClassId) : registry.Keeps { registry with classes := registry.classes.modify c f } where
  wellFormed h := ⟨h.classes.modify hname c, h.resources⟩
  classOwner d := bind_owner_modify howner registry.classes c d
  resourceOwner _ := rfl
  exists_class {d entry} he := by
    by_cases hd : c = d
    · exact ⟨f entry, by simp [Array.getElem?_modify, hd, he], hname entry, hdefined entry⟩
    · exact ⟨entry, by simp [Array.getElem?_modify, hd, he], rfl, id⟩

/-- A resource entry changes in neither path nor owner. -/
theorem keeps_modifyResource {f : ResourceEntry → ResourceEntry}
    (hpath : ∀ entry, (f entry).path = entry.path) (howner : ∀ entry, (f entry).owner = entry.owner)
    (registry : Registry) (r : ResourceId) :
    registry.Keeps { registry with resources := registry.resources.modify r f } :=
  { Keeps.refl registry with
    wellFormed := fun h => ⟨h.classes, h.resources.modify hpath r⟩
    resourceOwner := fun s => bind_owner_modify howner registry.resources r s }

/-! ## One operation after the other -/

theorem keeps_intern (registry : Registry) (name : String) :
    registry.Keeps (registry.intern name).1 := by
  unfold Registry.intern
  split
  · exact .refl registry
  · rename_i hnone
    refine ⟨fun h => ⟨h.classes.push (a := .placeholder name) hnone, h.resources⟩,
      bind_owner_push registry.classes rfl, fun _ => rfl, fun {c entry} he => ?_⟩
    have hne : c ≠ registry.classes.size := Nat.ne_of_lt (Array.getElem?_eq_some_iff.1 he).1
    exact ⟨entry, by simp [Array.getElem?_push, hne, he], rfl, id⟩

theorem keeps_addReference (registry : Registry) (source target : ClassId) :
    registry.Keeps (registry.addReference source target) := by
  unfold Registry.addReference
  split_ifs
  · exact .refl registry
  · have hsource := keeps_modifyClass
      (f := fun entry => { entry with references := entry.references.insert target })
      (fun _ => rfl) (fun _ => rfl) (fun _ => id) registry source
    exact hsource.trans (keeps_modifyClass
      (f := fun entry => { entry with referrers := entry.referrers.insert source })
      (fun _ => rfl) (fun _ => rfl) (fun _ => id) _ target)

theorem keeps_addReferences (registry : Registry) (source : ClassId) (targets : List String) :
    registry.Keeps (registry.addReferences source targets) := by
  unfold Registry.addReferences
  induction targets generalizing registry with
  | nil => exact .refl registry
  | cons target targets ih =>
    exact ((keeps_intern registry target).trans (keeps_addReference _ source _)).trans (ih _)

theorem keeps_register (registry : Registry) (record : ClassRecord) :
    registry.Keeps (registry.register record).1 := by
  unfold Registry.register
  dsimp only
  split_ifs
  · exact keeps_intern registry record.name
  · have hdefined := (keeps_intern registry record.name).trans (keeps_modifyClass
      (f := define record) (fun _ => rfl) (fun _ => rfl) (fun _ _ => rfl) _
      (registry.intern record.name).2)
    exact hdefined.trans (keeps_addReferences _ _ record.references)

theorem keeps_addResource (registry : Registry) (path : String) (size : Nat)
    (contents : Option String) : registry.Keeps (registry.addResource path size contents).1 := by
  unfold Registry.addResource
  dsimp only
  split_ifs with hresource hknown
  · exact .refl registry
  · exact .refl registry
  · have hnone : registry.resourceIndex[slashed path]? = none := by
      simpa [findResource] using hknown
    split
    · exact .refl registry
    · rename_i service _
      exact { Keeps.refl registry with
        wellFormed := fun h =>
          ⟨h.classes, h.resources.push (a := { path := slashed path, size, service }) hnone⟩
        resourceOwner := bind_owner_push registry.resources rfl }

theorem keeps_extendDescriptor (registry : Registry) (r : ResourceId) (provider : String) :
    registry.Keeps (registry.extendDescriptor r provider).1 := by
  have hensured : registry.Keeps (registry.ensureDescriptor r) :=
    keeps_modifyResource
      (f := fun entry => { entry with service := some (entry.service.getD (.ofPath entry.path)) })
      (fun _ => rfl) (fun _ => rfl) registry r
  unfold Registry.extendDescriptor
  dsimp only
  split
  · exact hensured
  · split
    · exact hensured
    · rename_i extended _
      exact hensured.trans (keeps_modifyResource
        (f := fun entry => { entry with service := some extended })
        (fun _ => rfl) (fun _ => rfl) _ r)

theorem keeps_addProvider (registry : Registry) (path provider : String) :
    registry.Keeps (registry.addProvider path provider).1 := by
  unfold Registry.addProvider
  split
  · exact keeps_extendDescriptor registry _ provider
  · have hadded := keeps_addResource registry path 0 none
    split
    · rename_i heq
      rw [heq] at hadded
      exact hadded
    · rename_i heq
      rw [heq] at hadded
      exact hadded.trans (keeps_extendDescriptor _ _ provider)

/-! ## Runs of operations -/

/-- The ways in which a registry is filled. -/
inductive Operation where
  | intern (name : String)
  | register (record : ClassRecord)
  | addReference (source target : ClassId)
  | addReferenceByName (source target : String)
  | addResource (path : String) (size : Nat) (contents : Option String)
  | addProvider (path provider : String)

/-- The registry after an operation. One that is refused leaves whatever it has done by then. -/
def Operation.run (registry : Registry) : Operation → Registry
  | intern name => (registry.intern name).1
  | register record => (registry.register record).1
  | addReference source target => registry.addReference source target
  | addReferenceByName source target => registry.addReferenceByName source target
  | addResource path size contents => (registry.addResource path size contents).1
  | addProvider path provider => (registry.addProvider path provider).1

/-- References by numbers are between classes that are there. -/
def Operation.Fits (registry : Registry) : Operation → Prop
  | addReference source target =>
    source = target ∨ source < registry.classes.size ∧ target < registry.classes.size
  | intern _ | register _ | addReferenceByName .. | addResource .. | addProvider .. => True

instance Operation.decidableFits (registry : Registry) :
    (operation : Operation) → Decidable (operation.Fits registry)
  | addReference source target =>
    inferInstanceAs (Decidable (source = target ∨
      source < registry.classes.size ∧ target < registry.classes.size))
  | intern _ | register _ | addReferenceByName .. | addResource .. | addProvider .. =>
    isTrue trivial

/-- The registry after some operations on an empty one. -/
def populate (operations : List Operation) : Registry :=
  operations.foldl Operation.run {}

theorem keeps_run (registry : Registry) (operation : Operation) :
    registry.Keeps (operation.run registry) := by
  cases operation with
  | intern name => exact keeps_intern registry name
  | register record => exact keeps_register registry record
  | addReference source target => exact keeps_addReference registry source target
  | addReferenceByName source target =>
    exact ((keeps_intern registry source).trans (keeps_intern _ target)).trans
      (keeps_addReference _ _ _)
  | addResource path size contents => exact keeps_addResource registry path size contents
  | addProvider path provider => exact keeps_addProvider registry path provider

/-- Whatever fills a registry, a build may begin with it. -/
theorem pristine_populate (operations : List Operation) : (populate operations).Pristine :=
  List.foldlRecOn (motive := Pristine) operations _ pristine_empty
    fun registry h operation _ => (keeps_run registry operation).pristine h

end Registry

end ModuleGraph

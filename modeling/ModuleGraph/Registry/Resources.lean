import ModuleGraph.Pattern.Set
import ModuleGraph.Registry.Basic

/-!
# Registering resources

Paths are kept with slashes only. The manifest of an archive and its signature files are no
resources. A resource whose path names a service descriptor carries the descriptor.
-/

namespace ModuleGraph

/-- The path with every backslash turned into a slash. -/
def slashed (path : String) : String :=
  .ofList (path.toList.map fun c => if c = '\\' then '/' else c)

namespace Registry

/-- Whether a path names a resource: neither the manifest nor a signature file. -/
def isResource (path : String) : Bool :=
  let path := slashed path
  !(hasEnd path "META-INF/MANIFEST.MF" || hasInner path "META-INF/JCE_RSA.") &&
    !(hasInner path "META-INF/" && (hasEnd path ".RSA" || hasEnd path ".SF"))

/-- The descriptor that a resource carries. Without contents a descriptor has no provider. -/
def descriptorOf (path : String) (contents : Option String) :
    Except ServiceError (Option ServiceDescriptor) :=
  if ServiceDescriptor.isDescriptorPath path then
    match contents with
    | some text => (ServiceDescriptor.parse path text).map some
    | none => .ok (some (.ofPath path))
  else .ok none

/-- Adds a resource. The contents matter for service descriptors only. -/
def addResource (registry : Registry) (path : String) (size : Nat) (contents : Option String) :
    Registry × Except RegistryError ResourceId :=
  let path := slashed path
  if !isResource path then (registry, .error (.notAResource path))
  else if (registry.findResource path).isSome then (registry, .error (.duplicateResource path))
  else
    match descriptorOf path contents with
    | .error e => (registry, .error (.service e))
    | .ok service =>
      let id := registry.resources.size
      ({ registry with
          resources := registry.resources.push { path, size, service }
          resourceIndex := registry.resourceIndex.insert path id }, .ok id)

/-- Gives a resource a descriptor for its path, unless it carries one. -/
def ensureDescriptor (registry : Registry) (id : ResourceId) : Registry :=
  { registry with
    resources := registry.resources.modify id fun entry =>
      { entry with service := some (entry.service.getD (.ofPath entry.path)) } }

/-- Adds a provider to the descriptor of a resource. -/
def extendDescriptor (registry : Registry) (id : ResourceId) (provider : String) :
    Registry × Except RegistryError ResourceId :=
  let registry := registry.ensureDescriptor id
  match (registry.resources[id]?).bind fun entry => entry.service.map (entry.path, ·) with
  | none => (registry, .ok id)
  | some (path, descriptor) =>
    match descriptor.addProvider path provider with
    | .error e => (registry, .error (.service e))
    | .ok extended =>
      ({ registry with
          resources := registry.resources.modify id fun entry =>
            { entry with service := some extended } }, .ok id)

/-- Adds a provider to a service descriptor. An unknown descriptor is added as a resource of size
zero first, and stays even if the provider is refused. -/
def addProvider (registry : Registry) (path provider : String) :
    Registry × Except RegistryError ResourceId :=
  match registry.findResource (slashed path) with
  | some id => registry.extendDescriptor id provider
  | none =>
    match registry.addResource path 0 none with
    | (registry, .error e) => (registry, .error e)
    | (registry, .ok id) => registry.extendDescriptor id provider

end Registry

namespace ResourceEntry

/-- Whether patterns select a resource: by its path or, for a service descriptor, by the name of
its first provider or its service. -/
def selectedBy (entry : ResourceEntry) (patterns : PatternSet) : Bool :=
  match entry.service with
  | some descriptor =>
    patterns.selectsClass descriptor.matchName || patterns.selectsResource entry.path
  | none => patterns.selectsResource entry.path

/-- Some pattern selects the path or, for a service descriptor, the name that it is matched by. -/
theorem selectedBy_iff {entry : ResourceEntry} {patterns : PatternSet} :
    entry.selectedBy patterns ↔ ∃ pattern ∈ patterns.patterns,
      pattern.selectsResource entry.path ∨
        ∃ descriptor, entry.service = some descriptor ∧
          pattern.selectsClass descriptor.matchName := by
  unfold selectedBy PatternSet.selectsClass PatternSet.selectsResource
  cases hservice : entry.service with
  | none => simp
  | some descriptor =>
    dsimp only
    rw [Bool.or_eq_true, List.any_eq_true, List.any_eq_true]
    constructor
    · intro h
      rcases h with ⟨pattern, hp, hclass⟩ | ⟨pattern, hp, hpath⟩
      · exact ⟨pattern, hp, .inr ⟨descriptor, rfl, hclass⟩⟩
      · exact ⟨pattern, hp, .inl hpath⟩
    · intro h
      obtain ⟨pattern, hp, hpath | ⟨_, heq, hclass⟩⟩ := h
      · exact .inr ⟨pattern, hp, hpath⟩
      · cases heq
        exact .inl ⟨pattern, hp, hclass⟩

/-- Whether a provider that the descriptor lists is one of the given classes. -/
def providedBy (entry : ResourceEntry) (registry : Registry) (classes : Std.TreeSet ClassId) :
    Bool :=
  match entry.service with
  | some descriptor =>
    descriptor.providers.any fun provider =>
      (registry.findClass provider).any classes.contains
  | none => false

end ResourceEntry

end ModuleGraph

import Mathlib.Tactic.SplitIfs
import ModuleGraph.ClassList
import ModuleGraph.Proofs.Ends

/-!
# What a refused entry leaves behind

A class or a resource that is refused leaves nothing behind: the registry stays as it was. A
provider that is refused for its name leaves the descriptor that it should have gone into, which is
looked for, or made, before the name is looked at (`Registry.withDescriptor`). So the registry stays
as it was only if the descriptor was there, or if the path is that of no resource.

A class list is read up to the first line that is refused. What the lines before it have
contributed stays, and that line adds nothing but such a descriptor
(`Registry.leftover_of_refused`).
-/

namespace ModuleGraph

namespace Registry

variable {registry : Registry} {path provider : String} {e : RegistryError}

/-! ## Classes and resources -/

/-- A class that is refused has been known, so nothing is added for its name either. -/
theorem fst_register_of_error {record : ClassRecord}
    (h : (registry.register record).2 = .error e) : (registry.register record).1 = registry := by
  unfold register intern at h ⊢
  cases hfind : registry.findClass record.name with
  | some c =>
    rw [hfind] at h
    dsimp only at h ⊢
    split_ifs at h ⊢
    rfl
  | none =>
    -- a placeholder is not defined
    rw [hfind] at h
    simp [ClassEntry.placeholder] at h

theorem fst_addResource_of_error {size : Nat} {contents : Option String}
    (h : (registry.addResource path size contents).2 = .error e) :
    (registry.addResource path size contents).1 = registry := by
  unfold addResource at h ⊢
  dsimp only at h ⊢
  split_ifs at h ⊢
  · rfl
  · rfl
  · cases hservice : descriptorOf (slashed path) contents with
    | error _ => rfl
    | ok service =>
      rw [hservice] at h
      cases h

/-- A resource that is accepted is new, and is added at the end. -/
theorem exists_of_addResource_ok {size : Nat} {contents : Option String} {added : Registry}
    {r : ResourceId} (h : registry.addResource path size contents = (added, .ok r)) :
    isResource (slashed path) = true ∧ registry.findResource (slashed path) = none ∧
      ∃ service, descriptorOf (slashed path) contents = .ok service ∧ added = { registry with
        resources := registry.resources.push { path := slashed path, size, service }
        resourceIndex :=
          registry.resourceIndex.insert (slashed path) registry.resources.size } := by
  unfold addResource at h
  dsimp only at h
  split_ifs at h with hresource hknown
  · cases h
  · cases h
  · cases hservice : descriptorOf (slashed path) contents with
    | error _ =>
      rw [hservice] at h
      cases h
    | ok service =>
      rw [hservice] at h
      cases h
      exact ⟨by simpa using hresource, by simpa using hknown, service, rfl, rfl⟩

/-! ## Providers -/

/-- The registry with a descriptor at a path: a path that is not known is added first, and a
descriptor that is new has no providers. -/
def withDescriptor (registry : Registry) (path : String) : Registry :=
  match registry.findResource (slashed path) with
  | some r => registry.ensureDescriptor r
  | none =>
    match registry.addResource path 0 none with
    | (added, .ok r) => added.ensureDescriptor r
    | (same, .error _) => same

theorem fst_extendDescriptor_of_error {r : ResourceId}
    (h : (registry.extendDescriptor r provider).2 = .error e) :
    (registry.extendDescriptor r provider).1 = registry.ensureDescriptor r := by
  unfold extendDescriptor at h ⊢
  dsimp only at h ⊢
  split
  · rfl
  · split
    · rfl
    · rename_i hdescriptor _ _ hadded
      rw [hdescriptor] at h
      dsimp only at h
      rw [hadded] at h
      cases h

/-- A provider that is refused leaves a descriptor at its path. -/
theorem fst_addProvider_of_error (h : (registry.addProvider path provider).2 = .error e) :
    (registry.addProvider path provider).1 = registry.withDescriptor path := by
  unfold addProvider withDescriptor at *
  cases hfind : registry.findResource (slashed path) with
  | some r =>
    rw [hfind] at h
    exact fst_extendDescriptor_of_error h
  | none =>
    rw [hfind] at h
    dsimp only at h ⊢
    generalize registry.addResource path 0 none = added at *
    obtain ⟨added, e' | r⟩ := added
    · rfl
    · exact fst_extendDescriptor_of_error h

theorem ensureDescriptor_eq_self_iff {r : ResourceId} :
    registry.ensureDescriptor r = registry ↔
      ∀ entry, registry.resources[r]? = some entry → entry.service.isSome := by
  constructor
  · intro h entry hr
    have hentry := congrArg (fun s => s.resources[r]?) h
    simp only [ensureDescriptor, Array.getElem?_modify, if_pos, hr, Option.map_some,
      Option.some.injEq] at hentry
    rw [← hentry]
    rfl
  · intro h
    have hresources : (registry.ensureDescriptor r).resources = registry.resources := by
      refine Array.ext_getElem? fun s => ?_
      rw [ensureDescriptor, Array.getElem?_modify]
      split_ifs with hs
      · subst hs
        cases hr : registry.resources[r]? with
        | none => rfl
        | some entry =>
          obtain ⟨descriptor, hdescriptor⟩ := Option.isSome_iff_exists.1 (h entry hr)
          rw [Option.map_some, hdescriptor, Option.getD_some, ← hdescriptor]
      · rfl
    exact congrArg (fun resources => { registry with resources }) hresources

/-- A descriptor changes nothing if the path has one, or is known not to be that of a resource. -/
theorem withDescriptor_eq_self_iff :
    registry.withDescriptor path = registry ↔
      match registry.findResource (slashed path) with
      | some r => ∀ entry, registry.resources[r]? = some entry → entry.service.isSome
      | none => isResource (slashed path) = false := by
  unfold withDescriptor
  cases hfind : registry.findResource (slashed path) with
  | some r => exact ensureDescriptor_eq_self_iff
  | none =>
    unfold addResource
    dsimp only
    rw [hfind]
    cases hresource : isResource (slashed path) with
    | false => simp
    | true =>
      -- one resource more
      have hsize {added : Registry} {r : ResourceId}
          (hadded : added.resources.size = registry.resources.size + 1) :
          added.ensureDescriptor r ≠ registry := by
        intro heq
        have := congrArg (fun s => s.resources.size) heq
        simp only [ensureDescriptor, Array.size_modify, hadded] at this
        omega
      have hdescriptor : ∃ service, descriptorOf (slashed path) none = .ok service := by
        unfold descriptorOf
        split_ifs
        · exact ⟨_, rfl⟩
        · exact ⟨_, rfl⟩
      obtain ⟨service, hservice⟩ := hdescriptor
      simp [hservice, hsize]

/-- The classes are the same, and so are the resources that were there, but for descriptors without
providers where there was none. -/
structure Spares (registry registry' : Registry) : Prop where
  classes : registry'.classes = registry.classes
  classIndex : registry'.classIndex = registry.classIndex
  resources : ∀ (r : ResourceId) entry, registry.resources[r]? = some entry → ∃ service,
    registry'.resources[r]? = some { entry with service } ∧
      (service = entry.service ∨ entry.service = none ∧ service = some (.ofPath entry.path))

theorem spares_ensureDescriptor (registry : Registry) (r : ResourceId) :
    registry.Spares (registry.ensureDescriptor r) where
  classes := rfl
  classIndex := rfl
  resources s entry hs := by
    rw [ensureDescriptor, Array.getElem?_modify, hs]
    split_ifs
    · refine ⟨_, rfl, ?_⟩
      cases entry.service with
      | none => exact .inr ⟨rfl, rfl⟩
      | some descriptor => exact .inl rfl
    · exact ⟨entry.service, rfl, .inl rfl⟩

/-- Nothing but a descriptor, and the resource that carries it, is new. -/
theorem spares_withDescriptor (registry : Registry) (path : String) :
    registry.Spares (registry.withDescriptor path) := by
  unfold withDescriptor
  cases registry.findResource (slashed path) with
  | some r => exact spares_ensureDescriptor registry r
  | none =>
    cases hadded : registry.addResource path 0 none with
    | mk added result =>
      cases result with
      | error e =>
        have hsame := fst_addResource_of_error (congrArg Prod.snd hadded)
        rw [hadded] at hsame
        dsimp only at hsame ⊢
        rw [hsame]
        exact ⟨rfl, rfl, fun r entry hr => ⟨entry.service, hr, .inl rfl⟩⟩
      | ok r =>
        obtain ⟨-, -, service, -, hnew⟩ := exists_of_addResource_ok hadded
        have hspares := spares_ensureDescriptor added r
        subst hnew
        refine ⟨hspares.classes, hspares.classIndex, fun s entry hs => hspares.resources s entry ?_⟩
        have hne : s ≠ registry.resources.size := Nat.ne_of_lt (Array.getElem?_eq_some_iff.1 hs).1
        rw [Array.getElem?_push, if_neg hne, hs]

end Registry

/-! ## Class lists -/

namespace ClassList

variable {registry : Registry}

theorem Entry.fst_record_of_error {entry : Entry} {e : RegistryError}
    (h : (entry.record registry).2 = .error e) :
    (entry.record registry).1 = registry ∨ ∃ path name, entry = .provider path name ∧
      (entry.record registry).1 = registry.withDescriptor path := by
  have hmap {α : Type} {x : Except RegistryError α} {e : RegistryError}
      (h : x.map (fun _ => ()) = .error e) : x = .error e := by
    cases x with
    | ok a => cases h
    | error e' => exact congrArg _ (Except.error.inj h)
  unfold record at h ⊢
  cases entry with
  | definition name isPublic size =>
    dsimp only at h ⊢
    exact .inl (Registry.fst_register_of_error (hmap h))
  | resource path size =>
    dsimp only at h ⊢
    exact .inl (Registry.fst_addResource_of_error (hmap h))
  | provider path name =>
    dsimp only at h ⊢
    exact .inr ⟨path, name, rfl, Registry.fst_addProvider_of_error (hmap h)⟩
  | edge source target isOptional => cases h

/-- What is read of lines that are not all accepted: those before the first one that is refused, and
of that one at most the descriptor of a provider. -/
theorem exists_refused_of_readLines {lines : List (Except FileError (List Char))} {n : Nat}
    {list : ClassList} {e : ClassListError} (h : (readLines registry n list lines).2 = .error e) :
    ∃ before bad after accepted, lines = before ++ bad :: after ∧
      (readLines registry n list before).2 = .ok accepted ∧
      ((readLines registry n list lines).1 = (readLines registry n list before).1 ∨
        ∃ cs path name, bad = .ok cs ∧
          Entry.parse (n + before.length) cs = .ok (some (.provider path name)) ∧
          (readLines registry n list lines).1 =
            (readLines registry n list before).1.withDescriptor path) := by
  induction lines generalizing registry n list with
  | nil => cases h
  | cons line lines ih =>
    cases line with
    | error e' => exact ⟨[], _, lines, list, rfl, rfl, .inl rfl⟩
    | ok cs =>
      rw [readLines] at h ⊢
      cases hparse : Entry.parse n cs with
      | error e' => exact ⟨[], _, lines, list, rfl, rfl, .inl rfl⟩
      | ok entry =>
        rw [hparse] at h
        cases entry with
        | none =>
          obtain ⟨before, bad, after, accepted, rfl, hbefore, hresult⟩ := ih h
          refine ⟨.ok cs :: before, bad, after, accepted, rfl, ?_⟩
          rw [readLines, hparse, List.length_cons, Nat.add_comm before.length, ← Nat.add_assoc]
          exact ⟨hbefore, hresult⟩
        | some entry =>
          dsimp only at h ⊢
          cases hrecord : entry.record registry with
          | mk next result =>
            rw [hrecord] at h
            cases result with
            | error e' =>
              have hleft := Entry.fst_record_of_error (congrArg Prod.snd hrecord)
              rw [hrecord] at hleft
              refine ⟨[], _, lines, list, rfl, rfl, hleft.imp_right ?_⟩
              rintro ⟨path, name, rfl, hnext⟩
              exact ⟨cs, path, name, rfl, hparse, hnext⟩
            | ok _ =>
              obtain ⟨before, bad, after, accepted, rfl, hbefore, hresult⟩ := ih h
              refine ⟨.ok cs :: before, bad, after, accepted, rfl, ?_⟩
              rw [readLines, hparse, List.length_cons, Nat.add_comm before.length, ← Nat.add_assoc]
              dsimp only
              rw [hrecord]
              exact ⟨hbefore, hresult⟩

end ClassList

/-! ## What is left -/

namespace Registry

/-- Whatever the registry, a class or a resource that is refused leaves it as it was. A provider
that is refused leaves a descriptor at its path, and nothing else: so the registry is as it was
exactly if the path had a descriptor or is that of no resource. The first line of a class list that
is refused adds nothing to what the lines before it have contributed, unless it is one of these
providers. -/
theorem leftover_of_refused (registry : Registry) :
    (∀ record e, (registry.register record).2 = .error e →
      (registry.register record).1 = registry) ∧
    (∀ path size contents e, (registry.addResource path size contents).2 = .error e →
      (registry.addResource path size contents).1 = registry) ∧
    (∀ path provider e, (registry.addProvider path provider).2 = .error e →
      (registry.addProvider path provider).1 = registry.withDescriptor path) ∧
    (∀ path, registry.Spares (registry.withDescriptor path) ∧
      (registry.withDescriptor path = registry ↔
        match registry.findResource (slashed path) with
        | some r => ∀ entry, registry.resources[r]? = some entry → entry.service.isSome
        | none => isResource (slashed path) = false)) ∧
    (∀ n list lines e, (ClassList.readLines registry n list lines).2 = .error e →
      ∃ before bad after accepted, lines = before ++ bad :: after ∧
        (ClassList.readLines registry n list before).2 = .ok accepted ∧
        ((ClassList.readLines registry n list lines).1 =
            (ClassList.readLines registry n list before).1 ∨
          ∃ cs path name, bad = .ok cs ∧
            ClassList.Entry.parse (n + before.length) cs = .ok (some (.provider path name)) ∧
            (ClassList.readLines registry n list lines).1 =
              (ClassList.readLines registry n list before).1.withDescriptor path)) :=
  ⟨fun _ _ => fst_register_of_error, fun _ _ _ _ => fst_addResource_of_error,
    fun _ _ _ => fst_addProvider_of_error,
    fun path => ⟨spares_withDescriptor registry path, withDescriptor_eq_self_iff⟩,
    fun _ _ _ _ => ClassList.exists_refused_of_readLines⟩

/-- A provider whose name begins with a numeral. -/
theorem leftover_misnamed :
    (addProvider {} "META-INF/services/Spi" "1st").2 =
      .error (.service (.illegalProvider "META-INF/services/Spi" 0 "1st")) ∧
    (addProvider {} "META-INF/services/Spi" "1st").1 =
      withDescriptor {} "META-INF/services/Spi" := by
  have hrefused : (addProvider {} "META-INF/services/Spi" "1st").2 =
      .error (.service (.illegalProvider "META-INF/services/Spi" 0 "1st")) := by
    decide +kernel
  exact ⟨hrefused, (leftover_of_refused {}).2.2.1 _ _ _ hrefused⟩

/-- The provider is refused, and yet the registry is not as it was: its descriptor stays, so that
the file of that path is refused afterwards as known already. The same goes for a class list. -/
theorem not_unchanged_misnamed :
    (addProvider {} "META-INF/services/Spi" "1st").2 =
      .error (.service (.illegalProvider "META-INF/services/Spi" 0 "1st")) ∧
    (addProvider {} "META-INF/services/Spi" "1st").1 ≠ {} ∧
    (addResource (addProvider {} "META-INF/services/Spi" "1st").1 "META-INF/services/Spi" 5
      (some "First")).2 = .error (.duplicateResource "META-INF/services/Spi") ∧
    (ClassList.read {} "provider META-INF/services/Spi 1st").2 =
      .error (.refused 1 (.service (.illegalProvider "META-INF/services/Spi" 0 "1st"))) ∧
    (ClassList.read {} "provider META-INF/services/Spi 1st").1 ≠ {} := by
  have hne {registry : Registry} (hsize : registry.resources.size = 1) : registry ≠ {} := by
    rintro rfl
    cases hsize
  refine ⟨?_, hne ?_, ?_, ?_, hne ?_⟩ <;> decide +kernel

end Registry

end ModuleGraph

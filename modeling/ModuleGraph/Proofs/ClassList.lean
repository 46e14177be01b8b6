import ModuleGraph.ClassList
import ModuleGraph.Proofs.Registry.Knowledge
import ModuleGraph.Proofs.Alike

/-!
# What a class list says

A class list is read if all of its lines can be read, no class is defined twice, and its resources
and providers are accepted, which depends on nothing but their own order. The registry then knows
exactly the classes, definitions and references that the lines mention (`ClassList.ends_enterAll`).
-/

namespace ModuleGraph

/-- The registry with other classes. -/
def Registry.withClasses (registry : Registry) (classes : Array ClassEntry)
    (classIndex : Std.TreeMap String ClassId) : Registry :=
  { registry with classes, classIndex }

/-- The registry without its classes. -/
def Registry.files (registry : Registry) : Registry :=
  registry.withClasses #[] {}

namespace ClassList

/-! ## Lines -/

namespace Entry

/-- Whether an entry concerns a resource: these count in their order. -/
def isFile : Entry → Bool
  | resource .. | provider .. => true
  | definition .. | edge .. => false

/-! The number of a line matters for errors only. -/

theorem alike_readAttributes (n m : Nat) (isPublic : Bool) (size : Nat)
    (tokens : List (List Char)) :
    Alike Eq (readAttributes n isPublic size tokens) (readAttributes m isPublic size tokens) := by
  induction tokens generalizing isPublic size with
  | nil => exact rfl
  | cons token rest ih =>
    unfold readAttributes readSize
    split_ifs
    · exact ih true size
    · cases Text.readSize token with
      | none => exact .error
      | some size => exact ih isPublic size

theorem alike_ofWords (n m : Nat) (words : List (List Char)) :
    Alike Eq (ofWords n words) (ofWords m words) := by
  unfold ofWords readSize
  dsimp only
  split_ifs
  · obtain ⟨a, _, ha, hb, rfl⟩ | ⟨e, e', ha, hb⟩ :=
      (alike_readAttributes n m false 0 ((words.drop 1).drop 1)).ok_or_error
    · rw [ha, hb]
      exact rfl
    · rw [ha, hb]
      exact .error
  · split
    · split_ifs
      · cases Text.readSize _ with
        | none => exact .error
        | some size => exact rfl
      all_goals exact rfl
    · split_ifs <;> exact rfl
    · exact rfl

theorem alike_parse (n m : Nat) (cs : List Char) : Alike Eq (parse n cs) (parse m cs) := by
  unfold parse
  dsimp only
  split_ifs
  · exact rfl
  · obtain ⟨a, _, ha, hb, rfl⟩ | ⟨e, e', ha, hb⟩ :=
      (alike_ofWords n m (Text.words (Text.trim cs))).ok_or_error
    · rw [ha, hb]
      cases a with
      | none => exact .error
      | some entry => exact rfl
    · rw [ha, hb]
      exact .error

/-- What a line says, if it can be read and says anything. -/
def ofLine? (cs : List Char) : Option Entry :=
  match parse 0 cs with
  | .ok entry => entry
  | .error _ => none

theorem ofLine?_of_parse {cs : List Char} {entry : Option Entry} (h : parse 0 cs = .ok entry) :
    ofLine? cs = entry := by
  unfold ofLine?
  rw [h]

/-- The registry with what a line says, unless it is refused. -/
def enter (registry : Registry) (entry : Entry) : Except RegistryError Registry :=
  match entry.record registry with
  | (registry, .ok ()) => .ok registry
  | (_, .error e) => .error e

theorem enter_of_record {registry r : Registry} {entry : Entry}
    {result : Except RegistryError Unit} (h : entry.record registry = (r, result)) :
    entry.enter registry = result.map fun _ => r := by
  unfold enter
  rw [h]
  cases result <;> rfl

/-- The reference that an entry marks as optional. -/
def optionalEdge? : Entry → Option (String × String)
  | edge source target true => some (source, target)
  | _ => none

theorem optionalEdges_count (entry : Entry) (list : ClassList) :
    (entry.count list).optionalEdges = list.optionalEdges ++ entry.optionalEdge?.toList := by
  cases entry with
  | edge source target isOptional => cases isOptional <;> simp [count, optionalEdge?]
  | _ => simp [count, optionalEdge?]

theorem optionalEdges_foldl_count (entries : List Entry) (list : ClassList) :
    (entries.foldl (fun list entry => entry.count list) list).optionalEdges =
      list.optionalEdges ++ entries.filterMap optionalEdge? := by
  induction entries generalizing list with
  | nil => simp
  | cons entry entries ih =>
    rw [List.foldl_cons, ih, optionalEdges_count, List.append_assoc, List.filterMap_cons]
    cases entry.optionalEdge? <;> rfl

end Entry

/-- Whether a line can be read. -/
def Readable (cs : List Char) : Prop :=
  ∃ entry, Entry.parse 0 cs = .ok entry

/-- Lines are read if each of them can be, and none is refused. -/
theorem ends_readLines (registry : Registry) (n : Nat) (list : ClassList)
    (lines : List (List Char)) :
    Ends (readLines registry n list (lines.map .ok)).2
      (fun list' => (∀ cs ∈ lines, Readable cs) ∧
        (lines.filterMap Entry.ofLine?).foldlM Entry.enter registry =
          .ok (readLines registry n list (lines.map .ok)).1 ∧
        list' = (lines.filterMap Entry.ofLine?).foldl (fun list entry => entry.count list) list)
      fun _ => ¬((∀ cs ∈ lines, Readable cs) ∧
        ∃ r, (lines.filterMap Entry.ofLine?).foldlM Entry.enter registry = .ok r) := by
  induction lines generalizing registry n list with
  | nil => exact ⟨by simp, rfl, rfl⟩
  | cons cs lines ih =>
    rw [List.map_cons]
    unfold readLines
    obtain ⟨entry, _, hn, h₀, rfl⟩ | ⟨e, e', hn, h₀⟩ := (Entry.alike_parse n 0 cs).ok_or_error
    · have hcs : Readable cs := ⟨entry, h₀⟩
      have hline := Entry.ofLine?_of_parse h₀
      rw [hn]
      cases entry with
      | none =>
        refine (ih registry (n + 1) list).mono (fun list' h => ?_) fun _ h => ?_
        · simpa [hline, hcs] using h
        · simpa [hline, hcs] using h
      | some entry =>
        have hentries : (cs :: lines).filterMap Entry.ofLine? =
            entry :: lines.filterMap Entry.ofLine? := List.filterMap_cons_some hline
        rw [hentries, List.foldlM_cons]
        dsimp only
        cases hrecord : entry.record registry with
        | mk r result =>
          rw [Entry.enter_of_record hrecord]
          cases result with
          | error e =>
            rintro ⟨-, _, hrun⟩
            cases hrun
          | ok _ =>
            refine (ih r (n + 1) (entry.count list)).mono (fun list' h => ?_) fun _ h => ?_
            · obtain ⟨hreadable, hrun, hcount⟩ := h
              exact ⟨List.forall_mem_cons.2 ⟨hcs, hreadable⟩, hrun, hcount⟩
            · exact fun ⟨hreadable, hrun⟩ => h ⟨(List.forall_mem_cons.1 hreadable).2, hrun⟩
    · rw [hn]
      rintro ⟨hreadable, -⟩
      obtain ⟨entry, hentry⟩ := hreadable cs List.mem_cons_self
      rw [h₀] at hentry
      cases hentry

/-! ## Whole class lists -/

/-- The lines of a class list, without the blanks at their ends, and without the empty ones: so it
does not matter how lines end, or whether the last one does. -/
def contentLines (text : String) : List (List Char) :=
  ((Text.lines text.toList).map Text.trim).filter (!·.isEmpty)

/-- Whether a line says something about a resource. -/
def saysFile (cs : List Char) : Bool :=
  (Entry.ofLine? cs).any Entry.isFile

/-- What the lines of a class list say. -/
def entriesOf (text : String) : List Entry :=
  (contentLines text).filterMap Entry.ofLine?

theorem trim_trim (cs : List Char) : Text.trim (Text.trim cs) = Text.trim cs :=
  Text.trim_eq_self (fun _ => Text.isBlank_head?_trim) fun _ => Text.isBlank_getLast?_trim

theorem parse_trim (n : Nat) (cs : List Char) :
    Entry.parse n (Text.trim cs) = Entry.parse n cs := by
  unfold Entry.parse
  rw [trim_trim]

theorem parse_of_trim_isEmpty {cs : List Char} (h : (Text.trim cs).isEmpty = true) :
    Entry.parse 0 cs = .ok none := by
  unfold Entry.parse
  simp [h]

/-- Reading a class list is entering what its lines say. -/
theorem ends_read (text : String) :
    Ends (read {} text).2
      (fun list => (∀ cs ∈ contentLines text, Readable cs) ∧
        (entriesOf text).foldlM Entry.enter {} = .ok (read {} text).1 ∧
        list = (entriesOf text).foldl (fun list entry => entry.count list) {})
      fun _ => ¬((∀ cs ∈ contentLines text, Readable cs) ∧
        ∃ r, (entriesOf text).foldlM Entry.enter {} = .ok r) := by
  have hentries : entriesOf text = (Text.lines text.toList).filterMap Entry.ofLine? := by
    unfold entriesOf contentLines
    rw [List.filterMap_filter, List.filterMap_map]
    refine congrArg (List.filterMap · _) (funext fun cs => ?_)
    unfold Entry.ofLine?
    dsimp only [Function.comp_apply]
    rw [parse_trim]
    split_ifs with hempty
    · rfl
    · rw [parse_of_trim_isEmpty (by simpa using hempty)]
  have hreadable : (∀ cs ∈ contentLines text, Readable cs) ↔
      ∀ cs ∈ Text.lines text.toList, Readable cs := by
    have htrim (cs : List Char) : Readable (Text.trim cs) ↔ Readable cs := by
      unfold Readable
      rw [parse_trim]
    unfold contentLines
    simp only [List.mem_filter, List.mem_map, and_imp, forall_exists_index,
      forall_apply_eq_imp_iff₂, htrim]
    refine forall₂_congr fun cs _ => ⟨fun h => ?_, fun h _ => h⟩
    by_cases hempty : (Text.trim cs).isEmpty = true
    · exact ⟨none, parse_of_trim_isEmpty hempty⟩
    · exact h (by simpa using hempty)
  rw [hentries, hreadable]
  exact ends_readLines {} 1 {} _

/-! ## Resources -/

section

variable (r : Registry) (classes : Array ClassEntry) (index : Std.TreeMap String ClassId)

theorem addResource_withClasses (path : String) (size : Nat) (contents : Option String) :
    (r.withClasses classes index).addResource path size contents =
      ((r.addResource path size contents).1.withClasses classes index,
        (r.addResource path size contents).2) := by
  have hfind : (r.withClasses classes index).findResource = r.findResource := rfl
  unfold Registry.addResource
  dsimp only
  rw [hfind]
  split_ifs
  · rfl
  · rfl
  · cases Registry.descriptorOf (slashed path) contents <;> rfl

theorem extendDescriptor_withClasses (id : ResourceId) (provider : String) :
    (r.withClasses classes index).extendDescriptor id provider =
      ((r.extendDescriptor id provider).1.withClasses classes index,
        (r.extendDescriptor id provider).2) := by
  have hresources : ((r.withClasses classes index).ensureDescriptor id).resources =
      (r.ensureDescriptor id).resources := rfl
  unfold Registry.extendDescriptor
  dsimp only
  rw [hresources]
  split
  · rfl
  · split <;> rfl

theorem addProvider_withClasses (path provider : String) :
    (r.withClasses classes index).addProvider path provider =
      ((r.addProvider path provider).1.withClasses classes index,
        (r.addProvider path provider).2) := by
  have hfind : (r.withClasses classes index).findResource = r.findResource := rfl
  unfold Registry.addProvider
  rw [hfind, addResource_withClasses]
  split
  · exact extendDescriptor_withClasses r classes index _ provider
  · obtain ⟨s, e | id⟩ := r.addResource path 0 none
    · rfl
    · exact extendDescriptor_withClasses s classes index id provider

end

namespace Entry

variable {entry : Entry}

theorem record_withClasses (h : entry.isFile) (r : Registry) (classes : Array ClassEntry)
    (index : Std.TreeMap String ClassId) :
    entry.record (r.withClasses classes index) =
      ((entry.record r).1.withClasses classes index, (entry.record r).2) := by
  cases entry with
  | definition name isPublic size => cases h
  | edge source target isOptional => cases h
  | resource path size =>
    unfold record
    dsimp only
    rw [addResource_withClasses]
  | provider path name =>
    unfold record
    dsimp only
    rw [addProvider_withClasses]

/-- Resources are entered without regard to classes. -/
theorem enter_withClasses (h : entry.isFile) (r : Registry) (classes : Array ClassEntry)
    (index : Std.TreeMap String ClassId) :
    entry.enter (r.withClasses classes index) =
      (entry.enter r).map (·.withClasses classes index) := by
  unfold enter
  rw [record_withClasses h]
  generalize entry.record r = result
  obtain ⟨r, e | _⟩ := result <;> rfl

end Entry

/-! ## Classes -/

/-- The names of the classes that an entry mentions. -/
def Entry.names : Entry → List String
  | definition name .. => [name]
  | edge source target _ => [source, target]
  | resource .. | provider .. => []

/-- The class that an entry defines. -/
def Entry.defines? : Entry → Option String
  | definition name .. => some name
  | _ => none

/-- The classes that entries mention. -/
def names (entries : List Entry) : Set String :=
  { name | name ∈ entries.flatMap Entry.names }

/-- The definitions among entries. -/
def definitions (entries : List Entry) : Set (String × Bool × Nat) :=
  { d | .definition d.1 d.2.1 d.2.2 ∈ entries }

/-- The references among entries. -/
def references (entries : List Entry) : Set (String × String) :=
  { r | ∃ isOptional, .edge r.1 r.2 isOptional ∈ entries }

/-- The registry has the classes, definitions and references of a list of entries. -/
def Describes (entries : List Entry) (r : Registry) : Prop :=
  r.Knows (names entries) (definitions entries) (references entries)

theorem facts_append_file (entries : List Entry) {entry : Entry} (hfile : entry.isFile) :
    names (entries ++ [entry]) = names entries ∧
      definitions (entries ++ [entry]) = definitions entries ∧
      references (entries ++ [entry]) = references entries := by
  refine ⟨Set.ext fun _ => ?_, Set.ext fun _ => ?_, Set.ext fun _ => ?_⟩ <;> cases entry with
  | definition name isPublic size => cases hfile
  | edge source target isOptional => cases hfile
  | _ => simp [names, definitions, references, Entry.names]

namespace Describes

variable {entries : List Entry} {r : Registry}

theorem definition (h : Describes entries r) (name : String) (isPublic : Bool) (size : Nat) :
    Ends (Entry.enter r (.definition name isPublic size))
      (fun s => (∀ isPublic size, (name, isPublic, size) ∉ definitions entries) ∧
        Describes (entries ++ [.definition name isPublic size]) s ∧ s.files = r.files)
      fun _ => ∃ isPublic size, (name, isPublic, size) ∈ definitions entries := by
  obtain ⟨hknows, entry, hentry, hname⟩ := Registry.Knows.intern h name
  have hfiles : (r.intern name).1.files = r.files := by
    unfold Registry.intern
    split <;> rfl
  have hdefined := (hknows.follows _ entry hentry).isDefined_iff
  rw [hname] at hdefined
  unfold Entry.enter Entry.record Registry.register
  dsimp only
  rw [hentry, Option.any_some]
  split_ifs with hdup
  · exact hdefined.1 hdup
  · have hnew (isPublic : Bool) (size : Nat) : (name, isPublic, size) ∉ definitions entries :=
      fun hmem => hdup (hdefined.2 ⟨isPublic, size, hmem⟩)
    have hdefine := hknows.define hentry (hname ▸ hnew) isPublic size
    have hnames : names (entries ++ [.definition name isPublic size]) =
        insert name (names entries) := by
      ext other
      simp only [names, List.flatMap_append, Set.mem_ofPred_eq, List.mem_append, Set.mem_insert_iff]
      simp only [List.flatMap_singleton, Entry.names, List.mem_singleton]
      tauto
    have hdefinitions : definitions (entries ++ [.definition name isPublic size]) =
        insert (name, isPublic, size) (definitions entries) := by
      ext d
      simp [definitions, Prod.ext_iff, or_comm]
    have hreferences : references (entries ++ [.definition name isPublic size]) =
        references entries := by
      ext d
      simp [references]
    refine ⟨hnew, ?_, hfiles⟩
    unfold Describes
    rw [hnames, hdefinitions, hreferences]
    rw [hname] at hdefine
    exact hdefine

theorem edge (h : Describes entries r) (source target : String) (isOptional : Bool) :
    Ends (Entry.enter r (.edge source target isOptional))
      (fun s => Describes (entries ++ [.edge source target isOptional]) s ∧ s.files = r.files)
      fun _ => False := by
  obtain ⟨hsource, e, he, hname⟩ := Registry.Knows.intern h source
  obtain ⟨htarget, f, hf, hname'⟩ := Registry.Knows.intern hsource target
  have hnames : names (entries ++ [.edge source target isOptional]) =
      insert target (insert source (names entries)) := by
    ext other
    simp only [names, List.flatMap_append, Set.mem_ofPred_eq, List.mem_append, Set.mem_insert_iff]
    simp only [List.flatMap_singleton, Entry.names, List.mem_cons, List.not_mem_nil]
    tauto
  have hdefinitions : definitions (entries ++ [.edge source target isOptional]) =
      definitions entries := by
    ext d
    simp [definitions]
  have hreferences : references (entries ++ [.edge source target isOptional]) =
      insert (source, target) (references entries) := by
    ext d
    simp [references, Prod.ext_iff, exists_or, or_comm]
  unfold Entry.enter Entry.record Registry.addReferenceByName Describes
  rw [hnames, hdefinitions, hreferences]
  have haddition := htarget.addReference (Registry.Knows.getElem?_intern he target) hf
  rw [hname, hname'] at haddition
  refine ⟨haddition, ?_⟩
  have hfiles (r : Registry) (name : String) : (r.intern name).1.files = r.files := by
    unfold Registry.intern
    split <;> rfl
  have hfiles' (r : Registry) (c d : ClassId) : (r.addReference c d).files = r.files := by
    unfold Registry.addReference
    split_ifs <;> rfl
  exact (hfiles' _ _ _).trans ((hfiles _ _).trans (hfiles _ _))

theorem file (h : Describes entries r) {entry : Entry} (hfile : entry.isFile) :
    Ends (entry.enter r)
      (fun s => Describes (entries ++ [entry]) s ∧ entry.enter r.files = .ok s.files)
      fun _ => ∃ e, entry.enter r.files = .error e := by
  have hfiles := Entry.enter_withClasses hfile r #[] {}
  have hclasses := Entry.enter_withClasses hfile r r.classes r.classIndex
  change entry.enter r = _ at hclasses
  change entry.enter r.files = _ at hfiles
  cases hr : entry.enter r with
  | error e => exact ⟨e, by rw [hfiles, hr]; rfl⟩
  | ok s =>
    rw [hr] at hclasses hfiles
    have hs : s = s.withClasses r.classes r.classIndex := Except.ok.inj hclasses
    obtain ⟨hnames, hdefinitions, hreferences⟩ := facts_append_file entries hfile
    refine ⟨?_, hfiles⟩
    unfold Describes
    rw [hnames, hdefinitions, hreferences, hs]
    exact Registry.Knows.congr h rfl rfl

end Describes

theorem describes_nil : Describes [] {} := by
  have hnames : names [] = ∅ := by simp [names]
  have hdefinitions : definitions [] = ∅ := by simp [definitions]
  have hreferences : references [] = ∅ := by simp [references]
  unfold Describes
  rw [hnames, hdefinitions, hreferences]
  exact Registry.knows_empty

theorem mem_defines_iff {entries : List Entry} {name : String} :
    name ∈ entries.filterMap Entry.defines? ↔
      ∃ isPublic size, (name, isPublic, size) ∈ definitions entries := by
  rw [List.mem_filterMap]
  constructor
  · rintro ⟨entry, hmem, hdefines⟩
    cases entry with
    | definition other isPublic size =>
      cases hdefines
      exact ⟨isPublic, size, hmem⟩
    | _ => cases hdefines
  · rintro ⟨isPublic, size, hmem⟩
    exact ⟨.definition name isPublic size, hmem, rfl⟩

/-- The entries done so far are entered, none of them a second definition. -/
structure Entered (done : List Entry) (r : Registry) : Prop where
  describes : Describes done r
  nodup : (done.filterMap Entry.defines?).Nodup
  files : (done.filter Entry.isFile).foldlM Entry.enter {} = .ok r.files

/-- What makes a list of entries acceptable does not depend on the order of classes and edges. -/
def Acceptable (entries : List Entry) : Prop :=
  (entries.filterMap Entry.defines?).Nodup ∧
    ∃ s, (entries.filter Entry.isFile).foldlM Entry.enter {} = .ok s

theorem Acceptable.of_append {before after : List Entry} (h : Acceptable (before ++ after)) :
    Acceptable before := by
  obtain ⟨hnodup, s, hs⟩ := h
  rw [List.filterMap_append] at hnodup
  rw [List.filter_append, List.foldlM_append] at hs
  obtain ⟨r, hr, -⟩ := exists_of_bind_ok hs
  exact ⟨hnodup.of_append_left, r, hr⟩

namespace Entered

variable {done : List Entry} {r : Registry} {entry : Entry}

theorem file (h : Entered done r) (hfile : entry.isFile = true) :
    Ends (entry.enter r) (Entered (done ++ [entry])) fun _ => ¬Acceptable (done ++ [entry]) := by
  have hrun : ((done ++ [entry]).filter Entry.isFile).foldlM Entry.enter {} =
      entry.enter r.files := by
    have hlast : [entry].filter Entry.isFile = [entry] := by simp [hfile]
    rw [List.filter_append, List.foldlM_append, h.files, hlast]
    exact bind_pure (entry.enter r.files)
  refine (h.describes.file hfile).mono (fun s hs => ⟨hs.1, ?_, hrun.trans hs.2⟩)
    fun _ ⟨e, he⟩ ⟨_, s, hs⟩ => ?_
  · have hdefines : entry.defines? = none := by cases entry <;> first | rfl | cases hfile
    simpa [hdefines] using h.nodup
  · rw [hrun, he] at hs
    cases hs

theorem notFile (h : Entered done r) (hfile : entry.isFile = false) {s : Registry}
    (hs : s.files = r.files) :
    ((done ++ [entry]).filter Entry.isFile).foldlM Entry.enter {} = .ok s.files := by
  have hlast : (done ++ [entry]).filter Entry.isFile = done.filter Entry.isFile := by simp [hfile]
  rw [hlast, hs]
  exact h.files

theorem step (h : Entered done r) (entry : Entry) :
    Ends (entry.enter r) (Entered (done ++ [entry])) fun _ => ¬Acceptable (done ++ [entry]) := by
  by_cases hfile : entry.isFile = true
  · exact h.file hfile
  cases entry with
  | definition name isPublic size =>
    have hdefines : (done ++ [Entry.definition name isPublic size]).filterMap Entry.defines? =
        done.filterMap Entry.defines? ++ [name] := List.filterMap_append
    refine (h.describes.definition name isPublic size).mono
      (fun s ⟨hnew, hs, hfiles⟩ => ⟨hs, ?_, h.notFile rfl hfiles⟩) fun _ hdup hall => ?_
    · rw [hdefines, List.nodup_append_comm, List.singleton_append, List.nodup_cons]
      refine ⟨fun hmem => ?_, h.nodup⟩
      obtain ⟨isPublic', size', hmem⟩ := mem_defines_iff.1 hmem
      exact hnew isPublic' size' hmem
    · have hnodup := hall.1
      rw [hdefines, List.nodup_append_comm, List.singleton_append, List.nodup_cons] at hnodup
      exact hnodup.1 (mem_defines_iff.2 hdup)
  | edge source target isOptional =>
    have hdefines : (done ++ [Entry.edge source target isOptional]).filterMap Entry.defines? =
        done.filterMap Entry.defines? := by
      rw [List.filterMap_append]
      exact List.append_nil _
    refine (h.describes.edge source target isOptional).mono
      (fun s ⟨hs, hfiles⟩ => ⟨hs, ?_, h.notFile rfl hfiles⟩) fun _ he => he.elim
    rw [hdefines]
    exact h.nodup
  | _ => cases hfile rfl

end Entered

/-- The entries of a list are entered if no class is defined twice and the resources are accepted,
which depends on nothing else. -/
theorem ends_enterAll (entries : List Entry) :
    Ends (entries.foldlM Entry.enter {}) (Entered entries) fun _ => ¬Acceptable entries := by
  refine Ends.foldlM_prefix Entered [] entries {} ⟨describes_nil, .nil, rfl⟩
    fun before entry after heq r h => ?_
  refine (h.step entry).mono (fun _ hs => hs) fun _ hbad hall => hbad ?_
  rw [List.nil_append] at heq
  rw [heq, List.append_cons] at hall
  exact hall.of_append

/-- A class list is read just if its lines can be read and what they say is acceptable. -/
theorem exists_read_iff (text : String) : (∃ list, (read {} text).2 = .ok list) ↔
    (∀ cs ∈ contentLines text, Readable cs) ∧ Acceptable (entriesOf text) := by
  have hread := ends_read text
  have henter := ends_enterAll (entriesOf text)
  constructor
  · rintro ⟨list, hlist⟩
    obtain ⟨hreadable, hrun, -⟩ := hread.of_ok hlist
    have hentered := henter.of_ok hrun
    exact ⟨hreadable, hentered.nodup, _, hentered.files⟩
  · rintro ⟨hreadable, hacceptable⟩
    cases hlist : (read {} text).2 with
    | ok list => exact ⟨list, rfl⟩
    | error e =>
      cases hrun : (entriesOf text).foldlM Entry.enter {} with
      | ok r => exact absurd ⟨hreadable, r, hrun⟩ (hread.of_error hlist)
      | error e' => exact absurd hacceptable (henter.of_error hrun)

end ClassList

end ModuleGraph

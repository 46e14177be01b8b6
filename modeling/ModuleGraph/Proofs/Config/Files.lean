import ModuleGraph.CommandLine.Run
import ModuleGraph.Proofs.Config.Records
import ModuleGraph.Proofs.FileActions
import ModuleGraph.Proofs.Toml.Documents

/-!
# Configuration files are loaded as they were saved

A valid configuration survives being saved and loaded (`Configuration.load_saved`). Its value is a
tidy table (`Configuration.tidy`), so its text is read; what is read has the same look-ups
(`reordered_of_tidy`); and a reader of records goes by look-ups alone (`Configuration.decodes`). A
file does not change where paths lead, since they lead through directories only
(`FileTree.walk_put`).
-/

namespace ModuleGraph

open Document

namespace Document.Toml

variable {n : Nat} {fields : List (String × Value)} {key : String}

/-! ## What a written table is read as -/

theorem lookup_toFields (entries : Entries) :
    (Entries.toFields entries).lookup key = (entries.lookup key).map Tree.toValue := by
  induction entries with
  | nil => rfl
  | cons entry entries ih =>
    obtain ⟨name, tree⟩ := entry
    rw [Entries.toFields, List.lookup_cons, List.lookup_cons, ih]
    cases key == name <;> rfl

theorem toRows_eq (rows : List Entries) :
    Entries.toRows rows = rows.map fun row => .table (Entries.toFields row) := by
  induction rows with
  | nil => rfl
  | cons row rows ih => rw [Entries.toRows, ih, List.map_cons]

theorem lookup_leaves_of_notMem (hkey : key ∉ fields.map Prod.fst) :
    (leaves fields).lookup key = none := by
  rw [List.lookup_eq_none_iff]
  simp only [leaves, List.mem_map, List.mem_filter]
  rintro _ ⟨field, ⟨hfield, -⟩, rfl⟩
  simpa using fun heq => hkey (List.mem_map.2 ⟨field, hfield, heq.symm⟩)

/-- The order of the entries does not matter for look-ups, as no two keys are the same. -/
theorem lookup_entriesOf (hkeys : (fields.map Prod.fst).Nodup)
    (hleaf : ∀ field ∈ fields, hasHeader field.2 = false → treeOf field.2 = .leaf field.2) :
    (entriesOf fields).lookup key = (fields.lookup key).map treeOf := by
  induction fields with
  | nil => rfl
  | cons field fields ih =>
    obtain ⟨name, v⟩ := field
    rw [List.map_cons, List.nodup_cons] at hkeys
    have ih := ih hkeys.2 fun f hf => hleaf f (List.mem_cons_of_mem _ hf)
    rw [entriesOf, List.lookup_append] at ih ⊢
    rw [List.lookup_cons]
    cases hheader : hasHeader v with
    | false =>
      have hleaves : leaves ((name, v) :: fields) = (name, treeOf v) :: leaves fields := by
        simp [leaves, hheader, hleaf _ List.mem_cons_self hheader]
      have hheaded : headed ((name, v) :: fields) = headed fields := by simp [headed, hheader]
      rw [hleaves, hheaded, List.lookup_cons]
      cases key == name with
      | false => exact ih
      | true => rfl
    | true =>
      have hleaves : leaves ((name, v) :: fields) = leaves fields := by simp [leaves, hheader]
      have hheaded : headed ((name, v) :: fields) = (name, treeOf v) :: headed fields := by
        simp [headed, hheader]
      rw [hleaves, hheaded, List.lookup_cons]
      cases hname : key == name with
      | false => exact ih
      | true =>
        rw [lookup_leaves_of_notMem (by rw [eq_of_beq hname]; exact hkeys.1)]
        rfl

theorem reordered_rows {rows : List (List (String × Value))}
    (h : ∀ fields ∈ rows, Reordered (treeOf (.table fields)).toValue (.table fields)) :
    Reordered (Tree.toValue (.rows (rows.map entriesOf).reverse)) (.array (rows.map .table)) := by
  have hrows : Tree.toValue (.rows (rows.map entriesOf).reverse) =
      .array (rows.map fun fields => (treeOf (.table fields)).toValue) := by
    simp [Tree.toValue, toRows_eq, treeOf, entriesOf, Function.comp_def]
  rw [hrows]
  refine .array ?_
  rw [List.forall₂_map_left_iff, List.forall₂_map_right_iff]
  exact List.forall₂_same.2 h

/-- What is read instead of a tidy table has the same look-ups. -/
theorem reordered_of_tidy (h : Tidy n fields) :
    Reordered (treeOf (.table fields)).toValue (.table fields) := by
  induction n generalizing fields with
  | zero => exact h.elim
  | succ n ih =>
    obtain ⟨hkeys, hfields⟩ := h
    have hleaf : ∀ field ∈ fields, hasHeader field.2 = false → treeOf field.2 = .leaf field.2 :=
      fun field hfield hheader => treeOf_plain ((hfields field hfield).2.plain_of_hasHeader hheader)
    rw [treeOf, Tree.toValue]
    refine .table fun key => ?_
    rw [lookup_toFields, ← entriesOf, lookup_entriesOf hkeys hleaf]
    cases hlookup : fields.lookup key with
    | none => exact .none
    | some v =>
      obtain ⟨before, after, rfl, -⟩ := List.lookup_eq_some_iff.1 hlookup
      refine .some ?_
      cases (hfields (key, v) (by simp)).2 with
      | plain hv =>
        rw [treeOf_plain hv, Tree.toValue]
        exact .refl v
      | table hbelow => exact ih hbelow
      | rows hne hrows =>
        rw [treeOf_rows hne]
        exact reordered_rows fun fields hfields => ih (hrows fields hfields)

/-! ## Tidy records -/

/-- A value that is a tidy table. -/
def TidyTable (n : Nat) (v : Value) : Prop :=
  ∃ fields, v = .table fields ∧ Tidy n fields

theorem TidyTable.fits {v : Value} (h : TidyTable n v) : Fits (Tidy n) v := by
  obtain ⟨fields, rfl, hfields⟩ := h
  exact .table hfields

theorem fits_array {items : List Value} (h : ∀ v ∈ items, TidyTable n v) :
    Fits (Tidy n) (.array items) := by
  cases items with
  | nil => exact .plain (.strings [])
  | cons v items =>
    choose! fieldsOf hfieldsOf using h
    have hitems : v :: items = ((v :: items).map fieldsOf).map .table := by
      rw [List.map_map]
      exact (List.map_id _).symm.trans (List.map_congr_left fun w hw => (hfieldsOf w hw).1)
    rw [hitems]
    exact .rows (by simp) (by simpa using fun w hw => (hfieldsOf w hw).2)

/-- A record whose fields have some of the given names, in their order. -/
theorem tidyTable_of_sublist (names : List String) (hnames : names.Nodup)
    (hbare : ∀ name ∈ names, Bare name) (hsub : (fields.map Prod.fst).Sublist names)
    (hfields : ∀ field ∈ fields, Fits (Tidy n) field.2) : TidyTable (n + 1) (.table fields) :=
  ⟨fields, rfl, hnames.sublist hsub, fun field hfield =>
    ⟨hbare _ (hsub.subset (List.mem_map.2 ⟨field, hfield, rfl⟩)), hfields field hfield⟩⟩

theorem fits_string {inner : List (String × Value) → Prop} (s : String) : Fits inner (.string s) :=
  .plain (.string s)

theorem fits_boolean {inner : List (String × Value) → Prop} (b : Bool) : Fits inner (.boolean b) :=
  .plain (.boolean b)

theorem fits_strings {inner : List (String × Value) → Prop} (items : List String) :
    Fits inner (.strings items) :=
  .plain (.strings items)

theorem fits_records {α : Type} {toValue : α → Value} (rows : List α)
    (h : ∀ row, TidyTable n (toValue row)) : Fits (Tidy n) (.array (rows.map toValue)) :=
  fits_array (List.forall_mem_map.2 fun row _ => h row)

end Document.Toml

open Document.Toml

variable (n : Nat)

theorem Modifiers.fits_toFields {inner : List (String × Value) → Prop} (m : Modifiers) :
    ∀ field ∈ m.toFields, Fits inner field.2 := by
  simp [toFields, fits_boolean]

theorem Settings.tidy (s : Settings) : TidyTable (n + 1) s.toValue := by
  refine tidyTable_of_sublist fieldNames (by decide) (by decide) ?_ ?_
  · cases s.unknownModule <;> simp [optionalField, fieldNames]
  · cases s.unknownModule <;> simp [optionalField, fits_string, fits_strings]

theorem Requirement.tidy (r : Requirement) : TidyTable (n + 1) r.toValue := by
  refine tidyTable_of_sublist fieldNames (by decide) (by decide) (.refl _) ?_
  exact List.forall_mem_cons.2 ⟨fits_string _, r.modifiers.fits_toFields⟩

theorem ViewDeclaration.tidy (v : ViewDeclaration) : TidyTable (n + 1) v.toValue := by
  refine tidyTable_of_sublist fieldNames (by decide) (by decide) ?_ ?_
  · cases v.mainClass <;> simp [optionalField, fieldNames]
  · cases v.mainClass <;> simp [optionalField, fits_string, fits_strings]

theorem ModuleDeclaration.tidy (m : ModuleDeclaration) : TidyTable (n + 2) m.toValue := by
  have hrequires := fits_records m.requires (Requirement.tidy n)
  have hviews := fits_records m.views (ViewDeclaration.tidy n)
  refine tidyTable_of_sublist fieldNames (by decide) (by decide) ?_ ?_
  · cases m.version <;> cases m.mainClass <;> simp [optionalField, fieldNames]
  · cases m.version <;> cases m.mainClass <;>
      simp [optionalField, fits_string, fits_boolean, fits_strings, hrequires, hviews]

theorem EdgeDeclaration.tidy (d : EdgeDeclaration) : TidyTable (n + 1) d.toValue := by
  refine tidyTable_of_sublist fieldNames (by decide) (by decide) (.refl _) ?_
  simpa [fits_string] using d.modifiers.fits_toFields

theorem OptionalDeclaration.tidy (d : OptionalDeclaration) : TidyTable (n + 1) d.toValue := by
  refine tidyTable_of_sublist fieldNames (by decide) (by decide) (.refl _) ?_
  simp [fits_string]

theorem PlatformSettings.tidy (p : PlatformSettings) : TidyTable (n + 1) p.toValue := by
  refine tidyTable_of_sublist fieldNames (by decide) (by decide) (.refl _) ?_
  simp [fits_string]

theorem Configuration.tidy (c : Configuration) : TidyTable (n + 3) c.toValue := by
  have hsettings := (Settings.tidy (n + 1) c.settings).fits
  have hmodules := fits_records c.modules (ModuleDeclaration.tidy n)
  have hdependencies := fits_records c.dependencies (EdgeDeclaration.tidy (n + 1))
  have hoptional := fits_records c.optional (OptionalDeclaration.tidy (n + 1))
  refine tidyTable_of_sublist fieldNames (by decide) (by decide) ?_ ?_
  · cases c.platform <;> simp [fieldNames]
  · cases c.platform with
    | none => simp [hsettings, hmodules, hdependencies, hoptional]
    | some p =>
      have hplatform := (PlatformSettings.tidy (n + 1) p).fits
      simp [hsettings, hmodules, hdependencies, hoptional, hplatform]

namespace Configuration

/-- A valid configuration is loaded from the value it is written as, however that is arranged. -/
theorem load_toValue {c : Configuration} (hvalid : c.validate = .ok ()) (surplus : Bool) {v : Value}
    (hv : Reordered v c.toValue) : load surplus v = .ok c := by
  rw [load, Configuration.decodes surplus c v hv]
  dsimp only
  rw [hvalid]

theorem parse_write {c : Configuration} (hvalid : c.validate = .ok ()) : parse c.write = .ok c := by
  obtain ⟨fields, hfields, htidy⟩ := Configuration.tidy 77 c
  rw [parse, write, hfields, Toml.parse_write htidy]
  refine load_toValue hvalid true ?_
  rw [hfields]
  exact reordered_of_tidy htidy

theorem parseBytes_write {c : Configuration} (hvalid : c.validate = .ok ()) :
    parseBytes c.write.toUTF8 = .ok c := by
  have htext : String.fromUTF8? c.write.toUTF8 = some c.write := dif_pos c.write.isValidUTF8
  rw [parseBytes, htext]
  exact parse_write hvalid

end Configuration

/-! ## Saved files -/

namespace FileTree

variable {tree saved : FileTree} {here there location : Location} {path text : String}

/-- A path goes through directories only, so a file changes no path. -/
theorem walk_put (hfile : tree.entryAt location ≠ some .directory) (text : String)
    {steps : List Path.Step} (h : tree.walk here steps = .ok there) :
    (tree.put location (.file text)).walk here steps = .ok there := by
  have hlocation : location ≠ [] := by
    rintro rfl
    exact hfile rfl
  refine walk_of_keeps (keeps_put hlocation fun old hold => ?_) h
  cases old with
  | file old => exact ⟨old, hold⟩
  | directory => exact absurd hold hfile

/-- What is written to a file is read from it. -/
theorem read_of_write (h : tree.write path text = .ok saved) : saved.read path = .ok text := by
  unfold write at h
  split at h
  case h_1 => exact nomatch h
  case h_2 location hlocate =>
    split_ifs at h with hrefused
    simp only [Bool.or_eq_true, decide_eq_true_eq, not_or] at hrefused
    obtain ⟨hfile, hslash⟩ := hrefused
    have hlocation : location ≠ [] := by
      rintro rfl
      exact hfile rfl
    obtain ⟨_, hpath, hwalk⟩ := exists_of_bind_ok hlocate
    have hlocated : saved.locate path = .ok location := by
      cases h
      exact bind_eq_of_ok hpath (walk_put hfile text hwalk)
    cases h
    rw [read, hlocated]
    dsimp only
    rw [entryAt_put tree hlocation, if_pos rfl]
    dsimp only
    rw [if_neg hslash]

end FileTree

namespace Configuration

/-- An effect on files runs first, in the state it is met in. -/
theorem run_bind_liftM {σ α β : Type} (x : StateM σ α)
    (f : α → CommandLine.Action (StateM σ) β) (events : List Event) (s : σ) :
    (((liftM x : CommandLine.Action (StateM σ) α) >>= f).run.run events).run s =
      ((f (x.run s).1).run.run events).run (x.run s).2 :=
  rfl

/-- Whatever file system returns the text of a configuration, the configuration is loaded. -/
theorem loadConfig_of_read {σ : Type} {fs : FileSystem (StateM σ)} {path : String} {s s' : σ}
    {bytes : ByteArray} {c : Configuration} (hread : (fs.read path).run s = (.ok bytes, s'))
    (hparse : parseBytes bytes = .ok c) (events : List Event) :
    ((CommandLine.loadConfig fs path).run.run events).run s = ((.ok c, events), s') := by
  rw [CommandLine.loadConfig, run_bind_liftM, hread]
  dsimp only
  rw [hparse]
  rfl

/-- A valid configuration is loaded unchanged: from the value it is written as, however the tables
of that are arranged, from its text, from a file system that returns the text, and so from the file
of a tree that the text was saved to. -/
theorem load_saved {c : Configuration} (hvalid : c.validate = .ok ()) :
    (∀ surplus v, Reordered v c.toValue → load surplus v = .ok c) ∧
      parse c.write = .ok c ∧
      (∀ {σ : Type} (fs : FileSystem (StateM σ)) (path : String) (s s' : σ) (events : List Event),
        (fs.read path).run s = (.ok c.write.toUTF8, s') →
        ((CommandLine.loadConfig fs path).run.run events).run s = ((.ok c, events), s')) ∧
      ∀ (tree saved : FileTree) (path : String) (events : List Event),
        (FileTree.system.write path c.write).run tree = (.ok (), saved) →
        ((CommandLine.loadConfig FileTree.system path).run.run events).run saved =
          ((.ok c, events), saved) := by
  refine ⟨fun surplus v => load_toValue hvalid surplus, parse_write hvalid, ?_, ?_⟩
  · intro σ fs path s s' events hread
    exact loadConfig_of_read hread (parseBytes_write hvalid) events
  · intro tree saved path events hsaved
    have hwrite : tree.write path c.write = .ok saved := by
      simp only [FileTree.system, StateT.run, FileTree.commit] at hsaved
      split at hsaved
      case h_1 changed hchanged => rw [hchanged, (Prod.mk.inj hsaved).2]
      case h_2 => exact nomatch (Prod.mk.inj hsaved).1
    have hread : (FileTree.system.read path).run saved = (.ok c.write.toUTF8, saved) := by
      simp only [FileTree.system, StateT.run, FileTree.read_of_write hwrite]
      rfl
    exact loadConfig_of_read hread (parseBytes_write hvalid) events

/-- A configuration with a fault-free declaration of every kind. -/
def sample : Configuration where
  settings := { unknownModule := some "rest", exportedPackages := ["a.\"b\""] }
  modules := [
    { name := "base", roots := ["java.*"], internalView := false },
    { name := "app", version := some "2", includes := ["app.**"], mainClass := some "it's\n\"it\""
      requires := [{ name := "base", modifiers := { isOptional := true } }]
      views := [{ name := "app.api", exports := ["app"], mainClass := some "" }] }]
  dependencies := [{ source := "app", target := "base" }]
  optional := [{ source := "app.*", target := "java.**" }]
  platform := some { publicStart := "\u2028" }

/-- The directory of the sample once it has been saved there. -/
def sampleTree : FileTree :=
  ({} : FileTree).put ["modules.toml"] (.file sample.write)

theorem load_saved_sample :
    sample.validate = .ok () ∧
      (FileTree.system.write "modules.toml" sample.write).run {} = (.ok (), sampleTree) ∧
      ((CommandLine.loadConfig FileTree.system "modules.toml").run.run []).run sampleTree =
        ((.ok sample, []), sampleTree) := by
  have hvalid : sample.validate = .ok () := by decide +kernel
  have hsaved : (FileTree.system.write "modules.toml" sample.write).run {} =
      (.ok (), sampleTree) := by
    rfl
  obtain ⟨-, -, -, hloaded⟩ := load_saved hvalid
  exact ⟨hvalid, hsaved, hloaded {} sampleTree "modules.toml" [] hsaved⟩

end Configuration

end ModuleGraph

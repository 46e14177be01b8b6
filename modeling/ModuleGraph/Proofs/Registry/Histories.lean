import ModuleGraph.Proofs.Registry.Soundness

/-!
# Histories of registries

Operations and class lists fill a registry in any order, and some of them are refused halfway
(`Registry.Step`). As none of them takes anything back, and all of them leave a sound registry, both
holds of every history that begins with an empty registry (`Registry.lasting_of_feasible`).

A class list does what its entries do as operations, up to the first line that is refused
(`ClassList.exists_entries_of_readLines`).
-/

namespace ModuleGraph

/-! ## Class lists -/

namespace ClassList

/-- What entering a line amounts to. -/
def Entry.operation : Entry → Registry.Operation
  | definition name isPublic size => .register { name, isPublic, size }
  | resource path size => .addResource path size none
  | provider path name => .addProvider path name
  | edge source target _ => .addReferenceByName source target

theorem Entry.fst_record (entry : Entry) (registry : Registry) :
    (entry.record registry).1 = entry.operation.run registry := by
  unfold record operation Registry.Operation.run
  cases entry <;> dsimp only

/-- Lines are entered one after the other, up to the first one that is refused. -/
theorem exists_entries_of_readLines (registry : Registry) (n : Nat) (list : ClassList)
    (lines : List (Except FileError (List Char))) :
    ∃ entries : List Entry, (readLines registry n list lines).1 =
      (entries.map Entry.operation).foldl Registry.Operation.run registry := by
  induction lines generalizing registry n list with
  | nil => exact ⟨[], rfl⟩
  | cons line lines ih =>
    cases line with
    | error e => exact ⟨[], rfl⟩
    | ok cs =>
      rw [readLines]
      cases Entry.parse n cs with
      | error e => exact ⟨[], rfl⟩
      | ok entry =>
        cases entry with
        | none => exact ih registry (n + 1) list
        | some entry =>
          -- also an entry that is refused has been run
          have hrecord := entry.fst_record registry
          dsimp only
          cases hresult : entry.record registry with
          | mk next result =>
            rw [hresult] at hrecord
            cases hrecord
            cases result with
            | error e => exact ⟨[entry], rfl⟩
            | ok _ =>
              obtain ⟨entries, hentries⟩ := ih (entry.operation.run registry) (n + 1)
                (entry.count list)
              exact ⟨entry :: entries, hentries⟩

end ClassList

/-! ## Histories -/

namespace Registry

variable {registry : Registry}

/-- What is done to a registry at a time: an operation is performed, or the lines of a class list
are read, some of which may be unreadable. -/
inductive Step where
  | perform (operation : Operation)
  | readLines (lines : List (Except FileError (List Char)))

namespace Step

/-- The registry after a step. One that is refused leaves whatever it has done by then. -/
def run (registry : Registry) : Step → Registry
  | perform operation => operation.run registry
  | readLines lines => (ClassList.readLines registry 1 {} lines).1

/-- Class lists know of no numbers. -/
def Fits (registry : Registry) : Step → Prop
  | perform operation => operation.Fits registry
  | readLines _ => True

end Step

theorem extends_step (registry : Registry) (step : Step) :
    registry.Extends (step.run registry) := by
  cases step with
  | perform operation => exact extends_run registry operation
  | readLines lines =>
    obtain ⟨entries, hentries⟩ := ClassList.exists_entries_of_readLines registry 1 {} lines
    show registry.Extends (ClassList.readLines registry 1 {} lines).1
    rw [hentries]
    exact List.foldlRecOn (motive := registry.Extends) _ _ (.refl registry)
      fun next hnext operation _ => hnext.trans (extends_run next operation)

theorem Sound.step (h : registry.Sound) {step : Step} (hfits : step.Fits registry) :
    (step.run registry).Sound := by
  cases step with
  | perform operation => exact h.run hfits
  | readLines lines =>
    obtain ⟨entries, hentries⟩ := ClassList.exists_entries_of_readLines registry 1 {} lines
    show (ClassList.readLines registry 1 {} lines).1.Sound
    rw [hentries]
    refine List.foldlRecOn (motive := Sound) _ _ h fun next hnext operation hmem => hnext.run ?_
    obtain ⟨entry, -, rfl⟩ := List.mem_map.1 hmem
    cases entry <;> trivial

/-- The steps can be done one after the other. -/
def Feasible : Registry → List Step → Prop
  | _, [] => True
  | registry, step :: steps => step.Fits registry ∧ Feasible (step.run registry) steps

instance decidableFits (registry : Registry) : (step : Step) → Decidable (step.Fits registry)
  | .perform operation => inferInstanceAs (Decidable (operation.Fits registry))
  | .readLines _ => isTrue trivial

instance decidableFeasible : (steps : List Step) → (registry : Registry) →
    Decidable (registry.Feasible steps)
  | [], _ => isTrue trivial
  | step :: steps, registry =>
    have := decidableFeasible steps (step.run registry)
    inferInstanceAs (Decidable (step.Fits registry ∧ Feasible (step.run registry) steps))

/-- The registry after some steps on an empty one. -/
def after (steps : List Step) : Registry :=
  steps.foldl Step.run {}

theorem Sound.foldl_run (h : registry.Sound) {steps : List Step}
    (hsteps : registry.Feasible steps) : (steps.foldl Step.run registry).Sound := by
  induction steps generalizing registry with
  | nil => exact h
  | cons step steps ih => exact ih (h.step hsteps.1) hsteps.2

/-- A history can go on for as long as one likes, and nothing in it is lost. -/
theorem extends_after_append (earlier later : List Step) :
    (after earlier).Extends (after (earlier ++ later)) := by
  unfold after
  rw [List.foldl_append]
  exact List.foldlRecOn (motive := Extends _) later _ (.refl _)
    fun next hnext step _ => hnext.trans (extends_step next step)

/-- Whatever is done to an empty registry, refused or not: names and numbers belong to each other,
references are known at both ends and no class refers to itself, and resources are proper. What has
been known at any time keeps its number and all that has been said of it. In particular, if a
placeholder is registered, it keeps its number and its references, and gets what its record says. -/
theorem lasting_of_feasible {earlier later : List Step} (h : Feasible {} (earlier ++ later)) :
    (after (earlier ++ later)).Sound ∧
    (after earlier).Extends (after (earlier ++ later)) ∧
    ∀ record c entry, (after earlier).findClass record.name = some c →
      (after earlier).classes[c]? = some entry → entry.isDefined = false →
      ((after earlier).register record).2 = .ok c ∧
        ∃ entry', ((after earlier).register record).1.classes[c]? = some entry' ∧
          entry.Grows entry' ∧ entry'.isDefined = true ∧ entry'.isPublic = record.isPublic ∧
            entry'.size = record.size ∧ entry'.package = record.package.getD entry.package :=
  ⟨sound_empty.foldl_run h, extends_after_append earlier later,
    fun _ _ _ hfind hentry hdefined => register_of_placeholder hfind hentry hdefined⟩

/-- Some steps, three of which are refused: a second definition, a class list with a provider whose
name begins with a numeral, and a resource that is known by then. -/
def Step.sample : List Step := [
  .perform (.addReferenceByName "app.Main" "lib.Tool"),
  .perform (.register { name := "app.Main", size := 3, references := ["app.Main", "lib.Late"] }),
  .perform (.register { name := "app.Main", isPublic := true }),
  .perform (.addReference 1 2),
  .readLines [
    .ok "resource app\\help.txt 4".toList,
    .ok "provider META-INF/services/lib.Spi 1st".toList,
    .ok "class lib.Late".toList],
  .perform (.addProvider "META-INF\\services\\lib.Spi" "lib.Tool"),
  .perform (.addResource "app/help.txt" 5 none)]

/-- The tool, which is a placeholder so far, is registered under its number. -/
theorem lasting_sample :
    (after Step.sample).Sound ∧ (after (Step.sample.take 4)).Extends (after Step.sample) ∧
      ((after (Step.sample.take 4)).register { name := "lib.Tool", size := 7 }).2 = .ok 1 := by
  have hfeasible : Feasible {} (Step.sample.take 4 ++ Step.sample.drop 4) := by decide +kernel
  obtain ⟨hsound, hextends, hregister⟩ := lasting_of_feasible hfeasible
  rw [List.take_append_drop] at hsound hextends
  have hplaceholder :
      ((after (Step.sample.take 4)).classes[1]?).any (fun entry => !entry.isDefined) = true := by
    decide +kernel
  obtain ⟨entry, hentry, hdefined⟩ := (Option.any_eq_true _ _).1 hplaceholder
  have hfind : (after (Step.sample.take 4)).findClass "lib.Tool" = some 1 := by decide +kernel
  exact ⟨hsound, hextends, (hregister _ 1 entry hfind hentry (by simpa using hdefined)).1⟩

end Registry

end ModuleGraph

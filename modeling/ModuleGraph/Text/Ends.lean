/-!
# Starts and ends of a text

`stripStart? s` removes `s` from the front of a list and `stripEnd? s` removes it from the back;
both answer `none` for a list without it. `hasStart`, `hasEnd` and `occursIn` are the tests on
strings.

**Statements.** `stripStart? s cs = some r` holds exactly of `cs = s ++ r`, and
`stripEnd? s cs = some r` exactly of `cs = r ++ s`.
-/

namespace ModuleGraph.Text

variable [DecidableEq α]

/-- What follows `start`, in a list that begins with it. -/
def stripStart? : (start cs : List α) → Option (List α)
  | [], cs => some cs
  | _ :: _, [] => none
  | s :: start, c :: cs => if s = c then stripStart? start cs else none

/-- What precedes `ending`, in a list that stops with it. -/
def stripEnd? (ending cs : List α) : Option (List α) :=
  (stripStart? ending.reverse cs.reverse).map List.reverse

theorem stripStart?_eq_some_iff {start cs rest : List α} :
    stripStart? start cs = some rest ↔ cs = start ++ rest := by
  induction start generalizing cs with
  | nil => simp [stripStart?]
  | cons s start ih =>
    cases cs with
    | nil => simp [stripStart?]
    | cons c cs =>
      by_cases h : s = c
      · simp [stripStart?, h, ih]
      · simp [stripStart?, h, Ne.symm h]

theorem stripEnd?_eq_some_iff {ending cs rest : List α} :
    stripEnd? ending cs = some rest ↔ cs = rest ++ ending := by
  simp only [stripEnd?, Option.map_eq_some_iff, stripStart?_eq_some_iff]
  constructor
  · rintro ⟨r, h, rfl⟩
    simpa using congrArg List.reverse h
  · rintro rfl
    exact ⟨rest.reverse, by simp, by simp⟩

/-- Whether a list stands somewhere inside another one. -/
def occursIn (inner : List α) : List α → Bool
  | [] => inner.isEmpty
  | c :: cs => (stripStart? inner (c :: cs)).isSome || occursIn inner cs

end ModuleGraph.Text

namespace ModuleGraph

/-- Whether a text begins with another one. -/
def hasStart (text start : String) : Bool :=
  (Text.stripStart? start.toList text.toList).isSome

/-- Whether a text stops with another one. -/
def hasEnd (text ending : String) : Bool :=
  (Text.stripEnd? ending.toList text.toList).isSome

/-- Whether a text contains another one. -/
def hasInner (text inner : String) : Bool :=
  Text.occursIn inner.toList text.toList

theorem hasStart_iff {text start : String} :
    hasStart text start = true ↔ ∃ rest, text.toList = start.toList ++ rest := by
  simp [hasStart, Option.isSome_iff_exists, Text.stripStart?_eq_some_iff]

theorem hasEnd_iff {text ending : String} :
    hasEnd text ending = true ↔ ∃ rest, text.toList = rest ++ ending.toList := by
  simp [hasEnd, Option.isSome_iff_exists, Text.stripEnd?_eq_some_iff]

end ModuleGraph

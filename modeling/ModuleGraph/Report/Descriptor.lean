import ModuleGraph.Report.Basic
import ModuleGraph.Text.Blank

/-!
# Module descriptors

The textual descriptor of a module:

```text
module foo @ 1.0 {
    requires public bar;
    permits m1, m2, m3, m4, m5,
            m6;
    exports com.foo;
    class com.foo.Main;

    view foo.api {
        exports com.foo.api;
    }
}
```

`descriptorLines` lists its lines, and `descriptor` joins them.

**Statement.** Lines that are joined are cut at the same places again (`lines_unlines`).
-/

namespace ModuleGraph

/-- Permits on one line of a descriptor. -/
def permitsPerLine : Nat := 5

/-- The lines of a list of permits that is broken after every fifth one; the first line is given
its own lead. -/
def permitLines (lead next : String) : (fuel : Nat) → List String → List String
  | 0, _ => []
  | _ + 1, [] => []
  | fuel + 1, permits =>
    let chunk := ", ".intercalate (permits.take permitsPerLine)
    let rest := permits.drop permitsPerLine
    if rest.isEmpty then [lead ++ chunk ++ ";"]
    else (lead ++ chunk ++ ",") :: permitLines next next fuel rest

/-- The permits clause, if there are permits. -/
def permitsClause (indent : String) (permits : List String) : List String :=
  permitLines (indent ++ "permits ") (indent ++ "        ") permits.length permits

/-- The requires clause of a dependence. -/
def RequiresReport.clause (r : RequiresReport) : String :=
  "    requires " ++ r.modifiers.foldr (fun word rest => word ++ " " ++ rest) r.view ++ ";"

namespace View

/-- The exports of a view. -/
def exportLines (indent : String) (view : View) : List String :=
  view.exports.toList.map fun package => indent ++ "exports " ++ package ++ ";"

/-- The main class of a view, if it has one. -/
def classLines (indent : String) (view : View) : List String :=
  match view.mainClass with
  | some mainClass => [indent ++ "class " ++ mainClass ++ ";"]
  | none => []

/-- What a view contributes to the descriptor. The internal view is left out. -/
def lines (view : View) : List String :=
  match view.kind with
  | .default => view.exportLines "    " ++ view.classLines "    "
  | .internal => []
  | .named =>
    ["", "    view " ++ view.name ++ " \x7b"] ++ view.exportLines "        " ++
      permitsClause "        " view.permits.toList ++ view.classLines "        " ++ ["    \x7d"]

end View

namespace ModuleReport

/-- The lines of the descriptor. -/
def descriptorLines (r : ModuleReport) : List String :=
  ["module " ++ r.name ++ " @ " ++ r.version ++ " \x7b"] ++
    r.requires.map RequiresReport.clause ++ permitsClause "    " r.permits ++
    r.views.flatMap View.lines ++ ["\x7d"]

end ModuleReport

/-- Lines, each with a line feed at its end. -/
def unlines (lines : List String) : String :=
  .join (lines.map (· ++ "\n"))

theorem unlines_cons (line : String) (lines : List String) :
    unlines (line :: lines) = line ++ "\n" ++ unlines lines := by
  simp [unlines]

/-- Lines without line feeds are found again, with an empty one at the end. -/
theorem lines_unlines {lines : List String} (h : ∀ line ∈ lines, '\n' ∉ line.toList) :
    Text.lines (unlines lines).toList = lines.map String.toList ++ [[]] := by
  induction lines with
  | nil => rfl
  | cons line lines ih =>
    have hfirst : Text.splitWhen (· == '\n') line.toList = [line.toList] := by
      apply Text.splitWhen_of_forall
      intro c hc
      simp only [beq_eq_false_iff_ne]
      rintro rfl
      exact h line List.mem_cons_self hc
    have htext : (unlines (line :: lines)).toList =
        line.toList ++ '\n' :: (unlines lines).toList := by
      simp [unlines_cons]
    rw [htext, Text.lines, Text.splitWhen_append_cons (by decide), hfirst]
    exact congrArg (line.toList :: ·) (ih fun l hl => h l (List.mem_cons_of_mem _ hl))

/-- The textual descriptor of a module. -/
def ModuleReport.descriptor (r : ModuleReport) : String :=
  unlines r.descriptorLines

end ModuleGraph

import ModuleGraph.Proofs.Clauses

/-!
# Descriptors are read back

What a descriptor says of a module (`ModuleReport.Content`) can be read from its text: if names are
words, the reading of a descriptor is the content of its report (`ModuleReport.read_descriptor`). So
reports with one descriptor have one content (`ModuleReport.content_eq_of_descriptor_eq`).

A reader needs no more than the leads of the lines. An empty line stands before every named view and
nowhere else, so it cuts the front of a descriptor and the blocks of its views off from each other.
-/

namespace ModuleGraph

/-! ## Views -/

namespace View

variable {view : View}

/-- What a descriptor says of a view. -/
structure Content where
  name : String
  exports : List String
  permits : List String
  mainClass : Option String
deriving DecidableEq

/-- What there is to say of a view. -/
def content (view : View) : Content where
  name := view.name
  exports := view.exports.toList
  permits := view.permits.toList
  mainClass := view.mainClass

/-- Names are words, and packages hold no blanks. A package may be empty. -/
structure Plain (view : View) : Prop where
  name : IsWord view.name
  exports : ∀ p ∈ view.exports.toList, NoBlank p
  permits : ∀ m ∈ view.permits.toList, IsWord m
  mainClass : ∀ m ∈ view.mainClass, IsWord m

instance (view : View) : Decidable view.Plain :=
  decidable_of_iff (IsWord view.name ∧ (∀ p ∈ view.exports.toList, NoBlank p) ∧
      (∀ m ∈ view.permits.toList, IsWord m) ∧ ∀ m ∈ view.mainClass, IsWord m)
    ⟨fun h => ⟨h.1, h.2.1, h.2.2.1, h.2.2.2⟩, fun h => ⟨h.1, h.2, h.3, h.4⟩⟩

/-- The first line of a named view. -/
def header (view : View) : String :=
  "    view " ++ view.name ++ " \x7b"

/-- The lines of a named view, but for the empty one before it. -/
def block (view : View) : List String :=
  [view.header] ++ view.exportLines "        " ++ permitsClause "        " view.permits.toList ++
    view.classLines "        " ++ ["    \x7d"]

/-- What the lines of a named view say. -/
def Content.ofLines (lines : List String) : Content where
  name := (wordsOf (lines.headD "")).getD 1 ""
  exports := bodies "        exports " lines
  permits := permitsIn "        " lines
  mainClass := (bodies "        class " lines).head?

theorem classLines_eq (indent : String) (view : View) :
    view.classLines indent =
      view.mainClass.toList.map fun s => indent ++ "class " ++ s ++ ";" := by
  unfold classLines
  cases view.mainClass <;> rfl

theorem led_exportLines (indent : String) (view : View) :
    Led [indent ++ "exports "] (view.exportLines indent) :=
  led_map _ _

theorem led_classLines (indent : String) (view : View) :
    Led [indent ++ "class "] (view.classLines indent) :=
  classLines_eq indent view ▸ led_map _ _

theorem led_header (view : View) : Led ["    view "] [view.header] := by
  rw [header, String.append_assoc]
  exact led_singleton _ _

theorem led_block (view : View) :
    Led ["    view ", "        exports ", "        permits ", "                ",
      "        class ", "    \x7d"] view.block :=
  (((view.led_header.append (view.led_exportLines "        ")).append
    (led_permitsClause "        " view.permits.toList)).append
    (view.led_classLines "        ")).append (led_singleton "    \x7d" "")

theorem bodies_exportLines (indent : String) (view : View) :
    bodies (indent ++ "exports ") (view.exportLines indent) = view.exports.toList :=
  bodies_map _ _

theorem bodies_classLines (indent : String) (view : View) :
    bodies (indent ++ "class ") (view.classLines indent) = view.mainClass.toList := by
  rw [classLines_eq, bodies_map]

theorem wordsOf_header (h : IsWord view.name) :
    wordsOf view.header = ["view", view.name, "\x7b"] := by
  have hlead : "    view " = "    view" ++ " " := rfl
  have hbrace : " \x7b" = " " ++ "\x7b" := rfl
  rw [header, hlead, hbrace, ← String.append_assoc, wordsOf_append_space, wordsOf_append_space,
    wordsOf_of_isWord h]
  rfl

theorem ofLines_block (h : view.Plain) : .ofLines view.block = view.content := by
  have hheader := view.led_header
  have hexports := view.led_exportLines "        "
  have hpermits := led_permitsClause "        " view.permits.toList
  have hclass := view.led_classLines "        "
  have hend := led_singleton "    \x7d" ""
  have hexports' := view.bodies_exportLines "        "
  have hpermits' := permitsIn_permitsClause "        " h.permits
  have hclass' := view.bodies_classLines "        "
  simp only [String.reduceAppend, permitLeads, String.append_empty] at *
  unfold Content.ofLines block content
  simp (disch := decide) only [bodies_append, permitsIn_append, bodies_of_led hheader,
    bodies_of_led hpermits, bodies_of_led hclass, bodies_of_led hexports, bodies_of_led hend,
    permitsIn_of_led hheader, permitsIn_of_led hexports, permitsIn_of_led hclass,
    permitsIn_of_led hend, hexports', hpermits', hclass']
  simp [wordsOf_header h.name]

theorem unbroken_exportLines (h : view.Plain) {indent : String} (hindent : '\n' ∉ indent.toList) :
    Unbroken (view.exportLines indent) := by
  apply unbroken_map
  · simp [hindent]
  · exact fun p hp => (h.exports p hp).not_lineFeed

theorem unbroken_classLines (h : view.Plain) {indent : String} (hindent : '\n' ∉ indent.toList) :
    Unbroken (view.classLines indent) := by
  rw [classLines_eq]
  apply unbroken_map
  · simp [hindent]
  · exact fun m hm => (h.mainClass m (by simpa using hm)).not_lineFeed

theorem unbroken_block (h : view.Plain) : Unbroken view.block := by
  have hindent : '\n' ∉ "        ".toList := by decide
  have hheader : Unbroken [view.header] := by simp [Unbroken, header, h.name.not_lineFeed]
  have hend : Unbroken ["    \x7d"] := by simp [Unbroken]
  exact (((hheader.append (unbroken_exportLines h hindent)).append
    (unbroken_permitsClause hindent h.permits)).append (unbroken_classLines h hindent)).append hend

end View

/-! ## Dependences -/

namespace RequiresReport

variable {q : RequiresReport}

/-- The modifiers and the view are words. -/
structure Plain (q : RequiresReport) : Prop where
  view : IsWord q.view
  modifiers : ∀ w ∈ q.modifiers, IsWord w

instance (q : RequiresReport) : Decidable q.Plain :=
  decidable_of_iff (IsWord q.view ∧ ∀ w ∈ q.modifiers, IsWord w)
    ⟨fun h => ⟨h.1, h.2⟩, fun h => ⟨h.1, h.2⟩⟩

/-- The modifiers and the view. -/
def content (q : RequiresReport) : List String × String :=
  (q.modifiers, q.view)

/-- What stands between the lead of a clause and its semicolon. -/
def body (q : RequiresReport) : String :=
  q.modifiers.foldr (fun word rest => word ++ " " ++ rest) q.view

/-- What a clause says of a dependence: the view comes last. -/
def ofBody (body : String) : List String × String :=
  ((wordsOf body).dropLast, (wordsOf body).getLastD "")

theorem map_clause (requires : List RequiresReport) :
    requires.map clause = (requires.map body).map fun s => "    requires " ++ s ++ ";" := by
  rw [List.map_map]
  rfl

theorem wordsOf_foldr {view : String} (hview : IsWord view) {modifiers : List String}
    (h : ∀ w ∈ modifiers, IsWord w) :
    wordsOf (modifiers.foldr (fun word rest => word ++ " " ++ rest) view) =
      modifiers ++ [view] := by
  induction modifiers with
  | nil => exact wordsOf_of_isWord hview
  | cons w modifiers ih =>
    rw [List.foldr_cons, wordsOf_append_space, wordsOf_of_isWord (h w List.mem_cons_self),
      ih fun v hv => h v (List.mem_cons_of_mem _ hv)]
    rfl

theorem ofBody_body (h : q.Plain) : ofBody q.body = q.content := by
  simp [ofBody, body, content, wordsOf_foldr h.view h.modifiers]

theorem not_lineFeed_body (h : q.Plain) : '\n' ∉ q.body.toList := by
  have hmodifiers := h.modifiers
  unfold body
  generalize q.modifiers = modifiers at hmodifiers
  induction modifiers with
  | nil => exact h.view.not_lineFeed
  | cons w modifiers ih =>
    have hw := (hmodifiers w List.mem_cons_self).not_lineFeed
    have hrest := ih fun v hv => hmodifiers v (List.mem_cons_of_mem _ hv)
    simp_all

end RequiresReport

/-! ## Modules -/

namespace ModuleReport

open View

variable {r s : ModuleReport} {view : View}

/-- What a descriptor says of a module. -/
structure Content where
  name : String
  version : String
  requires : List (List String × String)
  permits : List String
  exports : List String
  mainClass : Option String
  views : List View.Content
deriving DecidableEq

/-- What there is to say of a module: exports and main class are those of the default view, and of
the other views it is the named ones that are told. -/
def content (r : ModuleReport) : Content where
  name := r.name
  version := r.version
  requires := r.requires.map RequiresReport.content
  permits := r.permits
  exports := (ofKind? r.views .default).elim [] (·.exports.toList)
  mainClass := (ofKind? r.views .default).bind (·.mainClass)
  views := (r.views.filter (·.kind == .named)).map View.content

/-- Names are words, and the first view is the only default view. -/
structure Plain (r : ModuleReport) : Prop where
  name : IsWord r.name
  version : IsWord r.version
  requires : ∀ q ∈ r.requires, q.Plain
  permits : ∀ m ∈ r.permits, IsWord m
  views : ∀ v ∈ r.views, v.Plain
  exists_default : ∃ view rest, r.views = view :: rest ∧ view.kind = .default ∧
    ∀ v ∈ rest, v.kind ≠ .default

/-- The first line of a descriptor. -/
def header (r : ModuleReport) : String :=
  "module " ++ r.name ++ " @ " ++ r.version ++ " \x7b"

/-- The lines before the named views. -/
def front (r : ModuleReport) (view : View) : List String :=
  [r.header] ++ r.requires.map RequiresReport.clause ++ permitsClause "    " r.permits ++
    view.exportLines "    " ++ view.classLines "    "

/-- What the parts of a descriptor say: the first is about the module, the others about a view
each. -/
def Content.ofParts (parts : List (List String)) : Content :=
  let front := parts.headD []
  { name := (wordsOf (front.headD "")).getD 1 ""
    version := (wordsOf (front.headD "")).getD 3 ""
    requires := (bodies "    requires " front).map RequiresReport.ofBody
    permits := permitsIn "    " front
    exports := bodies "    exports " front
    mainClass := (bodies "    class " front).head?
    views := parts.tail.map View.Content.ofLines }

/-- What a descriptor says. The text after the last line feed and the brace before it say nothing,
and empty lines stand between the parts. -/
def Content.read (text : String) : Content :=
  .ofParts (Text.splitWhen (· == "") ((Text.lines text.toList).dropLast.map .ofList).dropLast)

theorem led_header (r : ModuleReport) : Led ["module "] [r.header] := by
  simp only [header, String.append_assoc]
  exact led_singleton _ _

theorem led_requires (r : ModuleReport) :
    Led ["    requires "] (r.requires.map RequiresReport.clause) := by
  rw [RequiresReport.map_clause]
  exact led_map _ _

theorem led_front (r : ModuleReport) (view : View) :
    Led ["module ", "    requires ", "    permits ", "            ", "    exports ",
      "    class "] (r.front view) :=
  (((r.led_header.append r.led_requires).append (led_permitsClause "    " r.permits)).append
    (view.led_exportLines "    ")).append (view.led_classLines "    ")

theorem wordsOf_header (hname : IsWord r.name) (hversion : IsWord r.version) :
    wordsOf r.header = ["module", r.name, "@", r.version, "\x7b"] := by
  have hlead : "module " = "module" ++ " " := rfl
  have hat : " @ " = " " ++ "@" ++ " " := rfl
  have hbrace : " \x7b" = " " ++ "\x7b" := rfl
  rw [header, hlead, hat, hbrace]
  simp only [← String.append_assoc]
  simp only [wordsOf_append_space, wordsOf_of_isWord hname, wordsOf_of_isWord hversion]
  rfl

theorem ofParts_front (h : r.Plain) (view : View) (blocks : List (List String)) :
    .ofParts (r.front view :: blocks) =
      { name := r.name
        version := r.version
        requires := r.requires.map RequiresReport.content
        permits := r.permits
        exports := view.exports.toList
        mainClass := view.mainClass
        views := blocks.map View.Content.ofLines : Content } := by
  have hheader := r.led_header
  have hrequires := r.led_requires
  have hpermits := led_permitsClause "    " r.permits
  have hexports := view.led_exportLines "    "
  have hclass := view.led_classLines "    "
  have hrequires' : bodies "    requires " (r.requires.map RequiresReport.clause) =
      r.requires.map RequiresReport.body := by
    rw [RequiresReport.map_clause, bodies_map]
  have hpermits' := permitsIn_permitsClause "    " h.permits
  have hexports' := view.bodies_exportLines "    "
  have hclass' := view.bodies_classLines "    "
  have hcontents : (r.requires.map RequiresReport.body).map RequiresReport.ofBody =
      r.requires.map RequiresReport.content := by
    rw [List.map_map]
    exact List.map_congr_left fun q hq => RequiresReport.ofBody_body (h.requires q hq)
  simp only [String.reduceAppend, permitLeads] at *
  unfold Content.ofParts front
  simp (disch := decide) only [List.headD_cons, bodies_append, permitsIn_append,
    bodies_of_led hheader, bodies_of_led hrequires, bodies_of_led hpermits,
    bodies_of_led hexports, bodies_of_led hclass, permitsIn_of_led hheader,
    permitsIn_of_led hrequires, permitsIn_of_led hexports, permitsIn_of_led hclass, hrequires',
    hpermits', hexports', hclass']
  simp [wordsOf_header h.name h.version, hcontents]

/-- A descriptor is its front, the blocks of its named views with an empty line before each of them,
and a closing brace. -/
theorem exists_front (h : r.Plain) :
    ∃ view, ofKind? r.views .default = some view ∧ view.Plain ∧
      r.descriptorLines = r.front view ++
        ((r.views.filter (·.kind == .named)).map View.block).flatMap ("" :: ·) ++ ["\x7d"] := by
  obtain ⟨view, rest, hviews, hkind, hrest⟩ := h.exists_default
  -- behind the default view only named views have lines
  have hlines : rest.flatMap View.lines =
      ((rest.filter (·.kind == .named)).map View.block).flatMap ("" :: ·) := by
    clear hviews
    induction rest with
    | nil => rfl
    | cons v rest ih =>
      have hv := hrest v List.mem_cons_self
      rw [List.flatMap_cons, ih fun w hw => hrest w (List.mem_cons_of_mem _ hw)]
      cases hvkind : v.kind with
      | default => exact absurd hvkind hv
      | internal => simp [View.lines, hvkind]
      | named => simp [View.lines, View.block, View.header, hvkind]
  refine ⟨view, ?_, ?_, ?_⟩
  · simp [hviews, ofKind?, hkind]
  · exact h.views view (by simp [hviews])
  · simp [descriptorLines, front, header, hviews, hlines, View.lines, hkind]

theorem splitWhen_blocks {first : List String} {blocks : List (List String)}
    (hfirst : ∀ line ∈ first, (line == "") = false)
    (hblocks : ∀ block ∈ blocks, ∀ line ∈ block, (line == "") = false) :
    Text.splitWhen (· == "") (first ++ blocks.flatMap ("" :: ·)) = first :: blocks := by
  induction blocks generalizing first with
  | nil =>
    rw [List.flatMap_nil, List.append_nil]
    exact Text.splitWhen_of_forall hfirst
  | cons block blocks ih =>
    have hblock := hblocks block List.mem_cons_self
    rw [List.flatMap_cons, List.cons_append, Text.splitWhen_append_cons (by decide),
      Text.splitWhen_of_forall hfirst, ih hblock fun b hb => hblocks b (List.mem_cons_of_mem _ hb)]
    rfl

theorem unbroken_front (h : r.Plain) (hview : view.Plain) : Unbroken (r.front view) := by
  have hindent : '\n' ∉ "    ".toList := by decide
  have hheader : Unbroken [r.header] := by
    simp [Unbroken, header, h.name.not_lineFeed, h.version.not_lineFeed]
  have hrequires : Unbroken (r.requires.map RequiresReport.clause) := by
    rw [RequiresReport.map_clause]
    apply unbroken_map
    · decide
    · intro s hs
      obtain ⟨q, hq, rfl⟩ := List.mem_map.1 hs
      exact RequiresReport.not_lineFeed_body (h.requires q hq)
  exact (((hheader.append hrequires).append (unbroken_permitsClause hindent h.permits)).append
    (unbroken_exportLines hview hindent)).append (unbroken_classLines hview hindent)

/-- No line of a descriptor holds a line feed, so the lines are found again. -/
theorem unbroken_descriptorLines (h : r.Plain) : Unbroken r.descriptorLines := by
  obtain ⟨view, -, hview, hlines⟩ := exists_front h
  rw [hlines]
  have hblocks : Unbroken
      (((r.views.filter (·.kind == .named)).map View.block).flatMap ("" :: ·)) := by
    intro line hline
    simp only [List.mem_flatMap, List.mem_map, List.mem_filter, List.mem_cons] at hline
    obtain ⟨block, ⟨v, ⟨hv, -⟩, rfl⟩, rfl | hline⟩ := hline
    · simp
    · exact unbroken_block (h.views v hv) line hline
  exact ((unbroken_front h hview).append hblocks).append (by simp [Unbroken])

theorem read_descriptor (h : r.Plain) : .read r.descriptor = r.content := by
  have htext := lines_unlines (unbroken_descriptorLines h)
  obtain ⟨view, hdefault, -, hlines⟩ := exists_front h
  have hparts : Text.splitWhen (· == "") r.descriptorLines.dropLast =
      r.front view :: (r.views.filter (·.kind == .named)).map View.block := by
    rw [hlines, List.dropLast_concat]
    apply splitWhen_blocks
    -- a line with a lead is not empty
    · exact (r.led_front view).ne_empty (by decide)
    · intro block hblock
      obtain ⟨v, -, rfl⟩ := List.mem_map.1 hblock
      exact v.led_block.ne_empty (by decide)
  have hviews : ((r.views.filter (·.kind == .named)).map View.block).map View.Content.ofLines =
      (r.views.filter (·.kind == .named)).map View.content := by
    rw [List.map_map]
    exact List.map_congr_left fun v hv => ofLines_block (h.views v (List.mem_filter.1 hv).1)
  have hback : (r.descriptorLines.map String.toList).map String.ofList = r.descriptorLines := by
    simp [Function.comp_def]
  rw [Content.read, descriptor, htext, List.dropLast_concat, hback, hparts, ofParts_front h, hviews]
  simp [content, hdefault]

/-- The descriptor of a module loses nothing of what it tells. Names may hold commas, semicolons and
braces: that they hold no blanks is enough. -/
theorem content_eq_of_descriptor_eq (hr : r.Plain) (hs : s.Plain)
    (h : r.descriptor = s.descriptor) : r.content = s.content := by
  calc r.content = .read r.descriptor := (read_descriptor hr).symm
    _ = .read s.descriptor := by rw [h]
    _ = s.content := read_descriptor hs

/-- A module with two lines of permits, and an empty package among the exports of its views. -/
def layered : ModuleReport where
  name := "store"
  version := "1.0"
  requires := [{ module := "base", view := "base", modifiers := ["public"] },
    { module := "net", view := "net.api", modifiers := [] }]
  permits := ["a", "b", "c", "d", "e", "f", "g"]
  views := [{ name := "store", kind := .default, exports := stringSet ["", "store"] },
    { name := "store.internal", kind := .internal },
    { name := "store.api", kind := .named, exports := stringSet ["", "store.api"],
      permits := stringSet ["a", "h"], mainClass := some "store.api.Main" }]

/-- The internal view is not told: without it the module has the same descriptor. -/
theorem content_eq_of_descriptor_eq_layered :
    layered.Plain ∧
      layered.descriptor = { layered with views := layered.views.eraseIdx 1 }.descriptor ∧
      layered.content = { layered with views := layered.views.eraseIdx 1 }.content := by
  have hplain : layered.Plain :=
    ⟨by decide, by decide, by decide, by decide, by decide +kernel, _, _, rfl, rfl, by decide⟩
  have herased : { layered with views := layered.views.eraseIdx 1 }.Plain :=
    ⟨by decide, by decide, by decide, by decide, by decide +kernel, _, _, rfl, rfl, by decide⟩
  have hsame :
      layered.descriptor = { layered with views := layered.views.eraseIdx 1 }.descriptor := rfl
  exact ⟨hplain, hsame, content_eq_of_descriptor_eq hplain herased hsame⟩

end ModuleReport

end ModuleGraph

import Mathlib.Tactic.SplitIfs
import ModuleGraph.Report.Descriptor

/-!
# Clauses

The lines of a descriptor are told apart by what they begin with, their leads. When no lead begins
with another one (`Unlike`), what the lines with one lead say is found among all lines:

* `bodies` reads the clauses, each of which is a lead, a body and a semicolon (`bodies_map`);
* `permitsIn` reads a list of permits, which goes on in lines with a second lead
  (`permitsIn_permitsClause`).

Lines with other leads add nothing to either of them (`bodies_of_led`, `permitsIn_of_led`).
-/

namespace ModuleGraph

variable {s t lead other indent : String} {lines leads permits : List String}

/-! ## Words -/

/-- A text without blanks. -/
def NoBlank (s : String) : Prop :=
  ∀ c ∈ s.toList, Text.isBlank c = false

instance (s : String) : Decidable (NoBlank s) :=
  decidable_of_iff (s.toList.all fun c => !Text.isBlank c) (by simp [NoBlank])

/-- A text without blanks that is not empty. -/
structure IsWord (s : String) : Prop where
  ne_empty : s ≠ ""
  no_blank : NoBlank s

instance (s : String) : Decidable (IsWord s) :=
  decidable_of_iff (s ≠ "" ∧ NoBlank s) ⟨fun h => ⟨h.1, h.2⟩, fun h => ⟨h.1, h.2⟩⟩

/-- The words of a text. -/
def wordsOf (s : String) : List String :=
  (Text.words s.toList).map .ofList

/-- A text without its last character. -/
def dropEnd (s : String) : String :=
  .ofList s.toList.dropLast

theorem IsWord.append (h : IsWord s) (ht : NoBlank t) : IsWord (s ++ t) where
  ne_empty := by simp [h.ne_empty]
  no_blank c hc := by
    rw [String.toList_append, List.mem_append] at hc
    rcases hc with hc | hc
    · exact h.no_blank c hc
    · exact ht c hc

theorem wordsOf_of_isWord (h : IsWord s) : wordsOf s = [s] := by
  simp [wordsOf, Text.words_of_forall (by simpa using h.ne_empty) h.no_blank]

theorem wordsOf_append_space (s t : String) :
    wordsOf (s ++ " " ++ t) = wordsOf s ++ wordsOf t := by
  have hlist : (s ++ " " ++ t).toList = s.toList ++ ' ' :: t.toList := by simp
  rw [wordsOf, hlist, Text.words_append_cons (by decide), List.map_append]
  rfl

theorem dropEnd_append {c : Char} (hmark : t.toList = [c]) : dropEnd (s ++ t) = s := by
  simp [dropEnd, hmark]

/-- Words with commas between them and a mark behind the last one are found again, since a comma
belongs to the word before it. -/
theorem wordsOf_intercalate {c : Char} (hmark : t.toList = [c]) (hc : Text.isBlank c = false)
    {w : String} {ws : List String} (h : ∀ v ∈ w :: ws, IsWord v) :
    (wordsOf (", ".intercalate (w :: ws) ++ t)).map dropEnd = w :: ws := by
  have hcomma : ",".toList = [','] := rfl
  induction ws generalizing w with
  | nil =>
    have hw := (h w List.mem_cons_self).append (t := t) (by simpa [NoBlank, hmark] using hc)
    rw [String.intercalate_singleton, wordsOf_of_isWord hw, List.map_singleton,
      dropEnd_append hmark]
  | cons v ws ih =>
    have hw := (h w List.mem_cons_self).append (t := ",") (by decide)
    have hsplit : ", ".intercalate (w :: v :: ws) ++ t =
        (w ++ ",") ++ " " ++ (", ".intercalate (v :: ws) ++ t) := by
      have hsep : ", " = "," ++ " " := rfl
      rw [String.intercalate_cons_cons, hsep]
      simp only [String.append_assoc]
    rw [hsplit, wordsOf_append_space, wordsOf_of_isWord hw, List.singleton_append, List.map_cons,
      dropEnd_append hcomma, ih fun u hu => h u (List.mem_cons_of_mem _ hu)]

/-! ## Leads -/

/-- What follows a lead, in a line that begins with it. -/
def rest? (lead line : String) : Option String :=
  (Text.stripStart? lead.toList line.toList).map .ofList

/-- Neither text begins with the other. -/
def Unlike (lead other : String) : Prop :=
  ¬lead.toList <+: other.toList ∧ ¬other.toList <+: lead.toList

instance (lead other : String) : Decidable (Unlike lead other) :=
  inferInstanceAs (Decidable (_ ∧ _))

/-- All lines begin with one of the leads. -/
def Led (leads lines : List String) : Prop :=
  ∀ line ∈ lines, ∃ lead ∈ leads, ∃ s, line = lead ++ s

theorem Unlike.append_left (h : Unlike lead other) (indent : String) :
    Unlike (indent ++ lead) (indent ++ other) := by
  simpa [Unlike, String.toList_append, List.prefix_append_right_inj] using h

theorem rest?_append (lead s : String) : rest? lead (lead ++ s) = some s := by
  rw [rest?, String.toList_append, Text.stripStart?_eq_some_iff.2 rfl, Option.map_some,
    String.ofList_toList]

theorem rest?_of_unlike (h : Unlike lead other) (s : String) : rest? lead (other ++ s) = none := by
  rw [rest?, Option.map_eq_none_iff, Option.eq_none_iff_forall_ne_some]
  intro rest hrest
  have hlist := Text.stripStart?_eq_some_iff.1 hrest
  rw [String.toList_append] at hlist
  rcases List.prefix_or_prefix_of_prefix ⟨_, rfl⟩ ⟨_, hlist⟩ with hprefix | hprefix
  · exact h.1 hprefix
  · exact h.2 hprefix

theorem Led.append {leads' lines' : List String} (h : Led leads lines) (h' : Led leads' lines') :
    Led (leads ++ leads') (lines ++ lines') := by
  intro line hline
  rcases List.mem_append.1 hline with hline | hline
  · obtain ⟨lead, hlead, hrest⟩ := h line hline
    exact ⟨lead, List.mem_append_left _ hlead, hrest⟩
  · obtain ⟨lead, hlead, hrest⟩ := h' line hline
    exact ⟨lead, List.mem_append_right _ hlead, hrest⟩

theorem Led.ne_empty (h : Led leads lines) (hleads : "" ∉ leads) :
    ∀ line ∈ lines, (line == "") = false := by
  intro line hline
  obtain ⟨lead, hlead, s, rfl⟩ := h line hline
  have hne : lead ≠ "" := fun heq => hleads (heq ▸ hlead)
  simp [hne]

theorem led_singleton (lead s : String) : Led [lead] [lead ++ s] := by
  simp [Led]

theorem led_map (lead : String) (items : List String) :
    Led [lead] (items.map fun s => lead ++ s ++ ";") := by
  intro line hline
  obtain ⟨s, -, rfl⟩ := List.mem_map.1 hline
  exact ⟨lead, List.mem_singleton_self lead, s ++ ";", String.append_assoc ..⟩

/-! ## Clauses with one item -/

/-- What the lines with a lead say, without the semicolons at their ends. -/
def bodies (lead : String) (lines : List String) : List String :=
  (lines.filterMap (rest? lead)).map dropEnd

theorem bodies_append (lead : String) (as bs : List String) :
    bodies lead (as ++ bs) = bodies lead as ++ bodies lead bs := by
  simp [bodies]

theorem bodies_of_led (h : Led leads lines) (hunlike : ∀ other ∈ leads, Unlike lead other) :
    bodies lead lines = [] := by
  have hnone : lines.filterMap (rest? lead) = [] := by
    rw [List.filterMap_eq_nil_iff]
    intro line hline
    obtain ⟨other, hother, s, rfl⟩ := h line hline
    exact rest?_of_unlike (hunlike other hother) s
  rw [bodies, hnone, List.map_nil]

theorem bodies_map (lead : String) (items : List String) :
    bodies lead (items.map fun s => lead ++ s ++ ";") = items := by
  have hmark : ";".toList = [';'] := rfl
  have hbody (s : String) : rest? lead (lead ++ s ++ ";") = some (s ++ ";") := by
    rw [String.append_assoc, rest?_append]
  simp [bodies, List.filterMap_map, Function.comp_def, hbody, dropEnd_append hmark]

/-! ## Lists of permits -/

/-- The leads of the first line of a list of permits, and of the others. -/
def permitLeads (indent : String) : List String :=
  [indent ++ "permits ", indent ++ "        "]

/-- What a line says of permits. -/
def permitted? (indent line : String) : Option String :=
  (rest? (indent ++ "permits ") line).or (rest? (indent ++ "        ") line)

/-- The names in a list of permits. -/
def permitsIn (indent : String) (lines : List String) : List String :=
  (lines.filterMap (permitted? indent)).flatMap fun names => (wordsOf names).map dropEnd

theorem permitsIn_append (indent : String) (as bs : List String) :
    permitsIn indent (as ++ bs) = permitsIn indent as ++ permitsIn indent bs := by
  simp [permitsIn]

theorem permitsIn_of_led (h : Led leads lines)
    (hunlike : ∀ lead ∈ permitLeads indent, ∀ other ∈ leads, Unlike lead other) :
    permitsIn indent lines = [] := by
  have hnone : lines.filterMap (permitted? indent) = [] := by
    rw [List.filterMap_eq_nil_iff]
    intro line hline
    obtain ⟨other, hother, s, rfl⟩ := h line hline
    simp only [permitLeads, List.forall_mem_cons] at hunlike
    rw [permitted?, rest?_of_unlike (hunlike.1 other hother),
      rest?_of_unlike (hunlike.2.1 other hother), Option.or_none]
  rw [permitsIn, hnone, List.flatMap_nil]

theorem permitted?_of_mem (h : lead ∈ permitLeads indent) (s : String) :
    permitted? indent (lead ++ s) = some s := by
  have hunlike : Unlike (indent ++ "permits ") (indent ++ "        ") :=
    Unlike.append_left (by decide) indent
  simp only [permitLeads, List.mem_cons, List.not_mem_nil, or_false] at h
  rcases h with rfl | rfl
  · rw [permitted?, rest?_append, Option.some_or]
  · rw [permitted?, rest?_of_unlike hunlike, rest?_append, Option.none_or]

theorem permitsIn_cons (h : lead ∈ permitLeads indent) (s : String) (lines : List String) :
    permitsIn indent ((lead ++ s) :: lines) =
      (wordsOf s).map dropEnd ++ permitsIn indent lines := by
  simp [permitsIn, permitted?_of_mem h]

theorem permitLines_nil (lead next : String) (fuel : Nat) : permitLines lead next fuel [] = [] := by
  cases fuel <;> rfl

/-- Names are taken off line by line, with a comma or a semicolon at the end of each line. -/
theorem exists_permitLines_cons (lead next : String) (fuel : Nat) (p : String)
    (ps : List String) : ∃ mark, Text.isBlank mark = false ∧
      permitLines lead next (fuel + 1) (p :: ps) =
        (lead ++ (", ".intercalate ((p :: ps).take permitsPerLine) ++ .singleton mark)) ::
          permitLines next next fuel ((p :: ps).drop permitsPerLine) := by
  rw [permitLines]
  · split_ifs with hempty
    · rw [List.isEmpty_iff.1 hempty, permitLines_nil, String.append_assoc]
      exact ⟨';', rfl, rfl⟩
    · rw [String.append_assoc]
      exact ⟨',', rfl, rfl⟩
  · exact List.cons_ne_nil p ps

theorem permitsIn_permitLines {fuel : Nat} (hlead : lead ∈ permitLeads indent)
    (hfuel : permits.length ≤ fuel) (hpermits : ∀ p ∈ permits, IsWord p) :
    permitsIn indent (permitLines lead (indent ++ "        ") fuel permits) = permits := by
  -- along the lines, where the first one may have either lead
  induction fuel generalizing lead permits with
  | zero =>
    obtain rfl : permits = [] := by simpa using hfuel
    rfl
  | succ fuel ih =>
    cases permits with
    | nil => rfl
    | cons p ps =>
      obtain ⟨mark, hmark, hlines⟩ :=
        exists_permitLines_cons lead (indent ++ "        ") fuel p ps
      have hnext : indent ++ "        " ∈ permitLeads indent := by simp [permitLeads]
      have hless : ((p :: ps).drop permitsPerLine).length ≤ fuel := by
        rw [List.length_drop]
        simp only [List.length_cons] at hfuel ⊢
        unfold permitsPerLine
        omega
      have htaken : ∀ q ∈ (p :: ps).take permitsPerLine, IsWord q := fun q hq =>
        hpermits q (List.mem_of_mem_take hq)
      have hrest : ∀ q ∈ (p :: ps).drop permitsPerLine, IsWord q := fun q hq =>
        hpermits q (List.mem_of_mem_drop hq)
      have hnames : (wordsOf (", ".intercalate ((p :: ps).take permitsPerLine) ++
          .singleton mark)).map dropEnd = (p :: ps).take permitsPerLine :=
        wordsOf_intercalate (String.toList_singleton mark) hmark htaken
      rw [hlines, permitsIn_cons hlead, hnames, ih hnext hless hrest, List.take_append_drop]

theorem permitsIn_permitsClause (indent : String) (hpermits : ∀ p ∈ permits, IsWord p) :
    permitsIn indent (permitsClause indent permits) = permits :=
  permitsIn_permitLines (by simp [permitLeads]) (Nat.le_refl _) hpermits

theorem led_permitLines {lead next : String} (fuel : Nat) (permits : List String) :
    Led [lead, next] (permitLines lead next fuel permits) := by
  induction fuel generalizing lead permits with
  | zero => simp [permitLines, Led]
  | succ fuel ih =>
    cases permits with
    | nil => simp [permitLines, Led]
    | cons p ps =>
      obtain ⟨mark, -, hlines⟩ := exists_permitLines_cons lead next fuel p ps
      rw [hlines]
      intro line hline
      rcases List.mem_cons.1 hline with rfl | hline
      · exact ⟨lead, List.mem_cons_self, _, rfl⟩
      · obtain ⟨other, hother, hrest⟩ := ih _ line hline
        exact ⟨other, by simp_all, hrest⟩

theorem led_permitsClause (indent : String) (permits : List String) :
    Led (permitLeads indent) (permitsClause indent permits) :=
  led_permitLines _ _

/-! ## Line feeds -/

/-- No line holds a line feed. -/
def Unbroken (lines : List String) : Prop :=
  ∀ line ∈ lines, '\n' ∉ line.toList

theorem NoBlank.not_lineFeed (h : NoBlank s) : '\n' ∉ s.toList := fun hmem =>
  absurd (h _ hmem) (by decide)

theorem IsWord.not_lineFeed (h : IsWord s) : '\n' ∉ s.toList :=
  h.no_blank.not_lineFeed

theorem Unbroken.append {as bs : List String} (has : Unbroken as) (hbs : Unbroken bs) :
    Unbroken (as ++ bs) := fun line hline =>
  (List.mem_append.1 hline).elim (has line) (hbs line)

theorem unbroken_map {items : List String} (hlead : '\n' ∉ lead.toList)
    (hitems : ∀ s ∈ items, '\n' ∉ s.toList) :
    Unbroken (items.map fun s => lead ++ s ++ ";") := by
  intro line hline
  obtain ⟨s, hs, rfl⟩ := List.mem_map.1 hline
  simp [hlead, hitems s hs]

theorem not_lineFeed_intercalate {ws : List String} (h : ∀ w ∈ ws, '\n' ∉ w.toList) :
    '\n' ∉ (", ".intercalate ws).toList := by
  induction ws with
  | nil => simp
  | cons w ws ih =>
    have hw := h w List.mem_cons_self
    have hws := ih fun v hv => h v (List.mem_cons_of_mem _ hv)
    cases ws with
    | nil => simpa using hw
    | cons v ws =>
      rw [String.intercalate_cons_cons]
      simp_all

theorem unbroken_permitLines {lead next : String} (fuel : Nat) (hlead : '\n' ∉ lead.toList)
    (hnext : '\n' ∉ next.toList) (hpermits : ∀ p ∈ permits, '\n' ∉ p.toList) :
    Unbroken (permitLines lead next fuel permits) := by
  induction fuel generalizing lead permits with
  | zero => simp [permitLines, Unbroken]
  | succ fuel ih =>
    cases permits with
    | nil => simp [permitLines, Unbroken]
    | cons p ps =>
      obtain ⟨mark, hmark, hlines⟩ := exists_permitLines_cons lead next fuel p ps
      have hfeed : '\n' ≠ mark := by
        rintro rfl
        exact absurd hmark (by decide)
      have htaken := not_lineFeed_intercalate fun q hq =>
        hpermits q (List.mem_of_mem_take (i := permitsPerLine) hq)
      have hrest : Unbroken (permitLines next next fuel ((p :: ps).drop permitsPerLine)) :=
        ih hnext fun q hq => hpermits q (List.mem_of_mem_drop hq)
      rw [hlines]
      refine List.forall_mem_cons.2 ⟨?_, hrest⟩
      simp only [String.toList_append, String.toList_singleton, List.mem_append,
        List.mem_singleton, not_or]
      exact ⟨hlead, htaken, hfeed⟩

theorem unbroken_permitsClause (hindent : '\n' ∉ indent.toList)
    (hpermits : ∀ p ∈ permits, IsWord p) : Unbroken (permitsClause indent permits) := by
  apply unbroken_permitLines
  · simp [hindent]
  · simp [hindent]
  · exact fun p hp => (hpermits p hp).not_lineFeed

end ModuleGraph

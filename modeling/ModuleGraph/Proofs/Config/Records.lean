import ModuleGraph.Config.Record
import ModuleGraph.Proofs.Ends

/-!
# Records are read out of the values they are written as

The order of the fields of a table carries no meaning. `Reordered` relates values that differ in it
alone, and `Decodes` says that a reader takes one thing out of all of them. The readers of the
records are put together from `required` and `withDefault`, whose results depend on what the record
shows under a name (`Shows`); every field is written under the name that it is read by, and one that
is not written has the default that the reader assumes.
-/

namespace ModuleGraph

namespace Document

/-- The same value with the fields of its tables perhaps in another order: its tables have the same
look-ups. -/
inductive Reordered : Value → Value → Prop where
  | refl (v : Value) : Reordered v v
  | array {items items' : List Value} (h : List.Forall₂ Reordered items items') :
      Reordered (.array items) (.array items')
  | table {fields fields' : List (String × Value)}
      (h : ∀ key, Option.Rel Reordered (fields.lookup key) (fields'.lookup key)) :
      Reordered (.table fields) (.table fields')

/-- A reader takes `a` out of a value, however its tables are arranged. -/
def Decodes {α : Type} (read : Value → Except ShapeError α) (v : Value) (a : α) : Prop :=
  ∀ x, Reordered x v → read x = .ok a

section Readers

variable {α : Type} {read : Value → Except ShapeError α} {v : Value} {a : α}

theorem decodes_string (s : String) : Decodes Value.asString (.string s) s := by
  intro x hx
  cases hx
  rfl

theorem decodes_boolean (b : Bool) : Decodes Value.asBool (.boolean b) b := by
  intro x hx
  cases hx
  rfl

theorem decodes_list {toValue : α → Value} (h : ∀ row, Decodes read (toValue row) row)
    (rows : List α) : Decodes (Value.asList read) (.array (rows.map toValue)) rows := by
  have hread {items : List Value} (hitems : List.Forall₂ Reordered items (rows.map toValue)) :
      items.mapM read = .ok rows :=
    mapM_eq_ok ((List.forall₂_map_right_iff.1 hitems).imp fun x row hx => h row x hx)
  intro x hx
  cases hx with
  | refl => exact hread (List.forall₂_same.2 fun v _ => .refl v)
  | array hitems => exact hread hitems

theorem decodes_strings (items : List String) :
    Decodes (Value.asList Value.asString) (.strings items) items :=
  decodes_list decodes_string items

theorem decodes_option (hv : v ≠ .null) (h : Decodes read v a) :
    Decodes (Value.asOption read) v (some a) := by
  intro x hx
  have hread := h x hx
  cases x with
  | null =>
    cases hx
    exact absurd rfl hv
  | _ => simp only [Value.asOption, hread, Except.map]

end Readers

/-- The look-ups of a record are those of some fields, reordered. -/
def Shows (field : String → Option Value) (fields : List (String × Value)) : Prop :=
  ∀ name, Option.Rel Reordered (field name) (fields.lookup name)

/-- However its fields are ordered, a table is a record that shows them. -/
theorem exists_record {x : Value} {fields : List (String × Value)} (surplus : Bool)
    (names : List String) (h : Reordered x (.table fields)) :
    ∃ field, x.record surplus names = .ok field ∧ Shows field fields := by
  cases h with
  | refl =>
    refine ⟨_, rfl, fun name => ?_⟩
    cases fields.lookup name with
    | none => exact .none
    | some v => exact .some (.refl v)
  | table h => exact ⟨_, rfl, h⟩

namespace Shows

variable {α : Type} {field : String → Option Value} {fields : List (String × Value)}
  {name : String} {v : Value} {read : Value → Except ShapeError α} {a default : α}

theorem exists_of_lookup (h : Shows field fields) (hname : fields.lookup name = some v) :
    ∃ x, field name = some x ∧ Reordered x v := by
  have hrel := h name
  rw [hname] at hrel
  cases hfield : field name with
  | none =>
    rw [hfield] at hrel
    cases hrel
  | some x =>
    rw [hfield] at hrel
    cases hrel with
    | some hx => exact ⟨x, rfl, hx⟩

theorem required (h : Shows field fields) (hname : fields.lookup name = some v)
    (hread : Decodes read v a) : required field name read = .ok a := by
  obtain ⟨x, hfield, hx⟩ := h.exists_of_lookup hname
  rw [Document.required, hfield]
  exact hread x hx

theorem withDefault (h : Shows field fields) (hname : fields.lookup name = some v)
    (hread : Decodes read v a) : withDefault field name default read = .ok a := by
  obtain ⟨x, hfield, hx⟩ := h.exists_of_lookup hname
  rw [Document.withDefault, hfield]
  exact hread x hx

/-- A field that is not written is read as its default. -/
theorem withDefault_absent (h : Shows field fields) (hname : fields.lookup name = none) :
    Document.withDefault field name default read = .ok default := by
  have hrel := h name
  rw [hname] at hrel
  cases hfield : field name with
  | none => rw [Document.withDefault, hfield]
  | some x =>
    rw [hfield] at hrel
    cases hrel

theorem requiredString (h : Shows field fields) {s : String}
    (hname : fields.lookup name = some (.string s)) :
    Document.required field name Value.asString = .ok s :=
  h.required hname (decodes_string s)

theorem string (h : Shows field fields) {s default : String}
    (hname : fields.lookup name = some (.string s)) :
    Document.withDefault field name default Value.asString = .ok s :=
  h.withDefault hname (decodes_string s)

theorem boolean (h : Shows field fields) {b default : Bool}
    (hname : fields.lookup name = some (.boolean b)) :
    Document.withDefault field name default Value.asBool = .ok b :=
  h.withDefault hname (decodes_boolean b)

theorem strings (h : Shows field fields) {items default : List String}
    (hname : fields.lookup name = some (.strings items)) :
    Document.withDefault field name default (Value.asList Value.asString) = .ok items :=
  h.withDefault hname (decodes_strings items)

theorem optional {text : Option String} (h : Shows field fields)
    (hname : fields.lookup name = text.map .string) :
    Document.withDefault field name none (Value.asOption Value.asString) = .ok text := by
  cases text with
  | none => exact h.withDefault_absent hname
  | some s => exact h.withDefault hname (decodes_option (by simp) (decodes_string s))

end Shows

end Document

open Document

/-! ## The records of a configuration -/

theorem lookup_optionalField (name key : String) (text : Option String) :
    (optionalField name text).lookup key = if key = name then text.map .string else none := by
  cases text with
  | none => simp [optionalField]
  | some s =>
    by_cases hkey : key = name
    · simp [optionalField, hkey]
    · simp [optionalField, hkey, List.lookup_cons, beq_false_of_ne hkey]

theorem Settings.decodes (surplus : Bool) (s : Settings) :
    Decodes (Settings.ofValue surplus) s.toValue s := by
  intro x hx
  obtain ⟨field, hrecord, h⟩ := exists_record surplus fieldNames hx
  rw [ofValue, hrecord, ok_bind, h.string, ok_bind, h.string, ok_bind, h.optional, ok_bind,
    h.strings, ok_bind]
  · rfl
  all_goals simp [List.lookup_append, List.lookup_cons, lookup_optionalField]

/-- The flags of an edge are read from any record that shows them among its fields. -/
theorem Modifiers.ofFields_toFields {field : String → Option Value}
    {fields : List (String × Value)} (h : Shows field fields) (m : Modifiers)
    (hm : ∀ name ∈ m.toFields.map Prod.fst, fields.lookup name = m.toFields.lookup name) :
    Modifiers.ofFields field = .ok m := by
  rw [ofFields, h.boolean, ok_bind, h.boolean, ok_bind, h.boolean, ok_bind]
  · rfl
  all_goals
    rw [hm _ (by simp [toFields])]
    simp [toFields, List.lookup_cons]

theorem Requirement.decodes (surplus : Bool) (r : Requirement) :
    Decodes (Requirement.ofValue surplus) r.toValue r := by
  intro x hx
  obtain ⟨field, hrecord, h⟩ := exists_record surplus fieldNames hx
  rw [ofValue, hrecord, ok_bind, h.requiredString, ok_bind,
    Modifiers.ofFields_toFields h r.modifiers, ok_bind]
  · rfl
  all_goals simp [Modifiers.toFields, List.lookup_cons]

theorem ViewDeclaration.decodes (surplus : Bool) (v : ViewDeclaration) :
    Decodes (ViewDeclaration.ofValue surplus) v.toValue v := by
  intro x hx
  obtain ⟨field, hrecord, h⟩ := exists_record surplus fieldNames hx
  rw [ofValue, hrecord, ok_bind, h.requiredString, ok_bind, h.strings, ok_bind, h.strings, ok_bind,
    h.optional, ok_bind]
  · rfl
  all_goals simp [List.lookup_cons, lookup_optionalField]

theorem ModuleDeclaration.decodes (surplus : Bool) (m : ModuleDeclaration) :
    Decodes (ModuleDeclaration.ofValue surplus) m.toValue m := by
  intro x hx
  obtain ⟨field, hrecord, h⟩ := exists_record surplus fieldNames hx
  have hrequires := decodes_list (Requirement.decodes surplus) m.requires
  have hviews := decodes_list (ViewDeclaration.decodes surplus) m.views
  rw [ofValue, hrecord, ok_bind, h.requiredString, ok_bind, h.optional, ok_bind, h.strings, ok_bind,
    h.strings, ok_bind, h.strings, ok_bind, h.strings, ok_bind, h.optional, ok_bind, h.boolean,
    ok_bind, h.boolean, ok_bind, h.boolean, ok_bind, h.strings, ok_bind, h.withDefault _ hrequires,
    ok_bind, h.withDefault _ hviews, ok_bind]
  · rfl
  all_goals simp [List.lookup_append, List.lookup_cons, lookup_optionalField]

theorem EdgeDeclaration.decodes (surplus : Bool) (d : EdgeDeclaration) :
    Decodes (EdgeDeclaration.ofValue surplus) d.toValue d := by
  intro x hx
  obtain ⟨field, hrecord, h⟩ := exists_record surplus fieldNames hx
  rw [ofValue, hrecord, ok_bind, h.requiredString, ok_bind, h.requiredString, ok_bind,
    Modifiers.ofFields_toFields h d.modifiers, ok_bind]
  · rfl
  all_goals simp [Modifiers.toFields, List.lookup_cons]

theorem OptionalDeclaration.decodes (surplus : Bool) (d : OptionalDeclaration) :
    Decodes (OptionalDeclaration.ofValue surplus) d.toValue d := by
  intro x hx
  obtain ⟨field, hrecord, h⟩ := exists_record surplus fieldNames hx
  rw [ofValue, hrecord, ok_bind, h.requiredString, ok_bind, h.requiredString, ok_bind]
  · rfl
  all_goals simp [List.lookup_cons]

theorem PlatformSettings.decodes (surplus : Bool) (p : PlatformSettings) :
    Decodes (PlatformSettings.ofValue surplus) p.toValue p := by
  intro x hx
  obtain ⟨field, hrecord, h⟩ := exists_record surplus fieldNames hx
  rw [ofValue, hrecord, ok_bind]
  dsimp only
  rw [h.string, ok_bind, h.string, ok_bind, h.string, ok_bind, h.string, ok_bind, h.string, ok_bind,
    h.string, ok_bind, h.string, ok_bind]
  · rfl
  all_goals simp [List.lookup_cons]

/-- A configuration is read back from the value it is written as, however that is arranged. -/
theorem Configuration.decodes (surplus : Bool) (c : Configuration) :
    Decodes (Configuration.ofValue surplus) c.toValue c := by
  intro x hx
  obtain ⟨field, hrecord, h⟩ := exists_record surplus fieldNames hx
  have hmodules := decodes_list (ModuleDeclaration.decodes surplus) c.modules
  have hdependencies := decodes_list (EdgeDeclaration.decodes surplus) c.dependencies
  have hoptional := decodes_list (OptionalDeclaration.decodes surplus) c.optional
  have hplatform : withDefault field "platform" none
      (Value.asOption (PlatformSettings.ofValue surplus)) = .ok c.platform := by
    cases hp : c.platform with
    | none => exact h.withDefault_absent (by simp [hp, List.lookup_cons])
    | some p =>
      refine h.withDefault (v := p.toValue) (by simp [hp, List.lookup_cons])
        (decodes_option (by simp [PlatformSettings.toValue]) (PlatformSettings.decodes surplus p))
  rw [ofValue, hrecord, ok_bind, h.withDefault _ (Settings.decodes surplus c.settings), ok_bind,
    h.withDefault _ hmodules, ok_bind, h.withDefault _ hdependencies, ok_bind,
    h.withDefault _ hoptional, ok_bind, hplatform, ok_bind]
  · rfl
  all_goals simp [List.lookup_cons]

end ModuleGraph

import ModuleGraph.Text.Quoted

/-!
# Events of a run

What the engine reports while it works: each event has a severity, a message and named fields.
`Logged ε α` is a computation that may fail and tells its events either way.

**Statements.** Events have no influence on results: `result` commutes with sequencing
(`result_bind`), so a proof about results can forget the events.
-/

namespace ModuleGraph

/-- Severities, the most severe first. -/
inductive Severity where
  | warn
  | info
  | debug
  | trace
deriving DecidableEq, Repr, Inhabited

namespace Severity

/-- The word for a severity. -/
def word : Severity → String
  | warn => "warn"
  | info => "info"
  | debug => "debug"
  | trace => "trace"

/-- The severity of a word. -/
def ofWord? (word : String) : Option Severity :=
  [warn, info, debug, trace].find? (·.word == word)

/-- The place in the order of severities. -/
def rank : Severity → Nat
  | warn => 0
  | info => 1
  | debug => 2
  | trace => 3

end Severity

/-- Something that happened during a run. -/
inductive Event where
  | classListRead (classes resources edges : Nat)
  | referenceUnresolved (module source target : String)
  | closureComplete (module : String) (roots reached included resources unresolved : Nat)
  | referencesUnresolved (module : String) (count : Nat)
  | unclaimedAssigned (module : String) (count : Nat)
  | unclaimedLeft (count : Nat)
  | aggregationComplete (modules topLevel : Nat)
  | packageSplit (package : String) (modules : List String)
  | requirementOnItself (module target : String)
  | mainClassNotFound (module mainClass : String)
  | optionalEdgeOfBaseDropped (module target : String)
  | dependencesCollected (module : String) (count : Nat)
  | optionalDependenceDropped (module target : String)
  | dependenceOutsideTopLevelDropped (module target : String)
  | permitsFixed (added : Nat)
  | graphResolved (modules splitPackages promoted : Nat)
  | aggregateCreated (module : String)
  | aggregatesPrepared (exporters privileged : Nat)
deriving DecidableEq, Repr, Inhabited

/-- The value of a field of an event. -/
inductive FieldValue where
  | number (value : Nat)
  | text (value : String)
  | names (values : List String)
deriving DecidableEq, Repr, Inhabited

/-- The text of a field's value. -/
def FieldValue.shown : FieldValue → String
  | number value => toString value
  | text value => value
  | names values => Text.quotedList values

namespace Event

/-- How severe an event is. -/
def severity : Event → Severity
  | referencesUnresolved .. | unclaimedLeft .. | mainClassNotFound ..
  | optionalEdgeOfBaseDropped .. => .warn
  | unclaimedAssigned .. | aggregationComplete .. | graphResolved ..
  | aggregatesPrepared .. => .info
  | referenceUnresolved .. => .trace
  | classListRead .. | closureComplete .. | packageSplit .. | requirementOnItself ..
  | dependencesCollected .. | optionalDependenceDropped ..
  | dependenceOutsideTopLevelDropped .. | permitsFixed .. | aggregateCreated .. => .debug

/-- The message of an event. -/
def message : Event → String
  | classListRead .. => "class list read"
  | referenceUnresolved .. => "unresolved reference"
  | closureComplete .. => "root closure complete"
  | referencesUnresolved .. => "unresolved references"
  | unclaimedAssigned .. => "assigned unclaimed units"
  | unclaimedLeft .. => "units not claimed by any module"
  | aggregationComplete .. => "aggregation complete"
  | packageSplit .. => "split package"
  | requirementOnItself .. => "requires resolves to itself"
  | mainClassNotFound .. => "main class not found"
  | optionalEdgeOfBaseDropped .. => "dropping optional synthetic dependency of base module"
  | dependencesCollected .. => "dependences collected"
  | optionalDependenceDropped .. => "dropping optional dependence"
  | dependenceOutsideTopLevelDropped .. => "dropping dependence on non-top-level module"
  | permitsFixed .. => "permits fixup complete"
  | graphResolved .. => "module graph resolved"
  | aggregateCreated .. => "creating aggregate module"
  | aggregatesPrepared .. => "platform aggregates prepared"

/-- The fields of an event. -/
def fields : Event → List (String × FieldValue)
  | classListRead classes resources edges =>
    [("classes", .number classes), ("resources", .number resources), ("edges", .number edges)]
  | referenceUnresolved module source target =>
    [("module", .text module), ("from", .text source), ("to", .text target)]
  | closureComplete module roots reached included resources unresolved =>
    [("module", .text module), ("roots", .number roots), ("reached", .number reached),
      ("included", .number included), ("resources", .number resources),
      ("unresolved", .number unresolved)]
  | referencesUnresolved module count | unclaimedAssigned module count =>
    [("module", .text module), ("count", .number count)]
  | unclaimedLeft count => [("count", .number count)]
  | aggregationComplete modules topLevel =>
    [("modules", .number modules), ("top_level", .number topLevel)]
  | packageSplit package modules => [("package", .text package), ("modules", .names modules)]
  | requirementOnItself module target | optionalEdgeOfBaseDropped module target
  | optionalDependenceDropped module target
  | dependenceOutsideTopLevelDropped module target =>
    [("module", .text module), ("target", .text target)]
  | mainClassNotFound module mainClass =>
    [("module", .text module), ("main_class", .text mainClass)]
  | dependencesCollected module count =>
    [("module", .text module), ("requires", .number count)]
  | permitsFixed added => [("added", .number added)]
  | graphResolved modules splitPackages promoted =>
    [("modules", .number modules), ("split_packages", .number splitPackages),
      ("promoted", .number promoted)]
  | aggregateCreated module => [("module", .text module)]
  | aggregatesPrepared exporters privileged =>
    [("exporters", .number exporters), ("privileged", .number privileged)]

/-- An event on one line. -/
def line (event : Event) : String :=
  " ".intercalate (event.severity.word :: event.message ::
    event.fields.map fun (name, value) => name ++ "=" ++ value.shown)

/-- Whether an event is as severe as asked for. -/
def reaches (event : Event) (level : Severity) : Bool :=
  event.severity.rank ≤ level.rank

end Event

/-! ## Computations that tell events -/

/-- The events of a computation and its result. -/
structure Logged (ε α : Type) where
  events : List Event
  result : Except ε α

namespace Logged

/-- A computation that tells nothing. -/
def ofExcept (result : Except ε α) : Logged ε α :=
  ⟨[], result⟩

/-- Stops with an error. -/
def fail (error : ε) : Logged ε α :=
  ⟨[], .error error⟩

/-- Tells an event. -/
def emit (event : Event) : Logged ε Unit :=
  ⟨[event], .ok ()⟩

/-- Tells an event if a condition holds. -/
def emitIf (condition : Bool) (event : Event) : Logged ε Unit :=
  if condition then emit event else ⟨[], .ok ()⟩

/-- Goes on with the result of a computation, or stops with its error. -/
@[inline]
def andThen (x : Logged ε α) (f : α → Logged ε β) : Logged ε β :=
  match x.result with
  | .ok a =>
    let y := f a
    ⟨x.events ++ y.events, y.result⟩
  | .error e => ⟨x.events, .error e⟩

instance : Monad (Logged ε) where
  pure a := ⟨[], .ok a⟩
  bind := andThen

instance : MonadLift (Except ε) (Logged ε) where
  monadLift := ofExcept

@[simp]
theorem result_pure (a : α) : (pure a : Logged ε α).result = .ok a := rfl

@[simp]
theorem result_emit (event : Event) : (emit event : Logged ε Unit).result = .ok () := rfl

@[simp]
theorem result_emitIf (condition : Bool) (event : Event) :
    (emitIf condition event : Logged ε Unit).result = .ok () := by
  cases condition <;> rfl

@[simp]
theorem result_fail (error : ε) : (fail error : Logged ε α).result = .error error := rfl

@[simp]
theorem result_ofExcept (result : Except ε α) : (ofExcept result).result = result := rfl

/-- The result of a sequence is the sequence of results. -/
@[simp]
theorem result_bind (x : Logged ε α) (f : α → Logged ε β) :
    (x >>= f).result = x.result >>= fun a => (f a).result := by
  show (andThen x f).result = _
  unfold andThen
  cases x.result <;> rfl

end Logged

end ModuleGraph

import Mathlib.Data.Set.Card
import ModuleGraph.Proofs.Ownership.Takes

/-!
# The search of a completion

A completion follows references from its seeds. `Partition.Reaches` is the least set of open classes
that the seeds and its own members refer to; a class is open if it is defined, not excluded and
without an owner. `Partition.ends_search`: the search always succeeds and takes exactly this set.

The search goes round by round. Its invariant is that every class taken so far is reached, and that
the classes whose references have been followed, together with those that wait for the next round,
are the seeds and the classes taken (`Partition.Frontier`). When nothing waits any more, the classes
taken are closed under open references.
-/

namespace ModuleGraph

namespace Partition

variable {p q : Partition} {module : ModuleId} {spec : ModuleSpec} {seeds : Set ClassId}
  {c k r : ClassId}

/-! ## What can be reached -/

/-- The class has no owner, is defined and is not excluded. -/
def Open (p : Partition) (spec : ModuleSpec) (c : ClassId) : Prop :=
  ∃ entry, p.registry.classes[c]? = some entry ∧ entry.owner = none ∧ entry.isDefined = true ∧
    spec.excludesClass entry.name = false

/-- The class has no owner, and is missing or excluded. -/
def Barred (p : Partition) (spec : ModuleSpec) (c : ClassId) : Prop :=
  ∃ entry, p.registry.classes[c]? = some entry ∧ entry.owner = none ∧
    (entry.isDefined = false ∨ spec.excludesClass entry.name = true)

/-- The classes that are reached from the seeds. -/
inductive Reaches (p : Partition) (spec : ModuleSpec) (seeds : Set ClassId) : ClassId → Prop where
  | seed {k r : ClassId} : k ∈ seeds → r ∈ p.registry.referencesOf k → p.Open spec r →
      Reaches p spec seeds r
  | step {k r : ClassId} : Reaches p spec seeds k → r ∈ p.registry.referencesOf k →
      p.Open spec r → Reaches p spec seeds r

/-! ## Open and barred classes -/

theorem Reaches.open (h : p.Reaches spec seeds c) : p.Open spec c := by
  cases h with
  | seed _ _ hopen => exact hopen
  | step _ _ hopen => exact hopen

theorem Open.classOwner (h : p.Open spec c) : p.registry.classOwner c = none := by
  obtain ⟨entry, he, hnone, -⟩ := h
  rw [Registry.classOwner_of_getElem? he, hnone]

theorem Open.not_barred (h : p.Open spec c) : ¬p.Barred spec c := by
  obtain ⟨entry, he, -, hdefined, hexcludes⟩ := h
  rintro ⟨entry', he', -, hor⟩
  rw [he] at he'
  cases he'
  simp [hdefined, hexcludes] at hor

theorem Open.lt_size (h : p.Open spec c) : c < p.registry.classes.size := by
  obtain ⟨entry, he, -⟩ := h
  exact (Array.getElem?_eq_some_iff.1 he).1

/-! ## One class after the other -/

/-- The classes taken so far: those of the rounds before, then those of this round. -/
def Closing.taken (before : List ClassId) (state : Closing) : List ClassId :=
  before ++ state.fresh.reverse

/-- A search has taken its classes and has noted the given references, and nothing else. -/
structure Closing.Tracks (p : Partition) (module : ModuleId) (spec : ModuleSpec)
    (before : List ClassId) (noted : Set Reference) (state : Closing) : Prop where
  takes : p.Takes module {c | c ∈ state.taken before} ∅ noted state.partition
  nodup : (state.taken before).Nodup
  allOpen : ∀ c ∈ state.taken before, p.Open spec c
  reached_eq : state.reached = (state.taken before).length

/-- The references from some classes that lead to barred ones. -/
def barredFrom (p : Partition) (spec : ModuleSpec) (sources : Set ClassId) : Set Reference :=
  {u | u.1 ∈ sources ∧ u.2 ∈ p.registry.referencesOf u.1 ∧ p.Barred spec u.2}

@[simp]
theorem barredFrom_empty : p.barredFrom spec ∅ = ∅ := by
  simp [barredFrom]

theorem barredFrom_union (sources sources' : Set ClassId) :
    p.barredFrom spec (sources ∪ sources') =
      p.barredFrom spec sources ∪ p.barredFrom spec sources' := by
  ext u
  simp only [barredFrom, Set.mem_union, Set.mem_ofPred_eq, or_and_right]

variable {before : List ClassId} {noted : Set Reference} {state : Closing}

/-- The search after it has followed a reference: the target is taken if it is open, and noted if it
is barred. -/
structure Closing.Followed (p : Partition) (module : ModuleId) (spec : ModuleSpec)
    (before : List ClassId) (noted : Set Reference) (source target : ClassId)
    (state s : Closing) : Prop where
  tracks : s.Tracks p module spec before
    (noted ∪ {u | u = (source, target) ∧ p.Barred spec target})
  mem_taken : ∀ c, c ∈ s.taken before ↔ c ∈ state.taken before ∨ (c = target ∧ p.Open spec target)

/-- A target that has been taken or is neither open nor barred leaves all as it is. -/
theorem Closing.Tracks.keep (h : state.Tracks p module spec before noted)
    {source target : ClassId} (hopen : p.Open spec target → target ∈ state.taken before)
    (hbarred : ¬p.Barred spec target) :
    Closing.Followed p module spec before noted source target state state where
  tracks := { h with takes := h.takes.congr (by simp) (by simp) (by simp [hbarred]) }
  mem_taken c := by
    refine ⟨.inl, ?_⟩
    rintro (hc | ⟨rfl, hc⟩)
    · exact hc
    · exact hopen hc

/-- A reference to a barred target is noted. -/
theorem Closing.Tracks.note (h : state.Tracks p module spec before noted)
    {source target : ClassId} (hbarred : p.Barred spec target) :
    Closing.Followed p module spec before noted source target state
      { state with partition := state.partition.leaveUnresolved module (source, target) } where
  tracks := by
    refine ⟨(h.takes.trans (takes_leaveUnresolved _ module (source, target))).congr (fun c => ?_)
      (by simp) (by simp [hbarred]), h.nodup, h.allOpen, h.reached_eq⟩
    show c ∈ state.taken before ∨ c ∈ (∅ : Set ClassId) ↔ c ∈ state.taken before
    simp
  mem_taken c := by
    have hopen : ¬p.Open spec target := fun hopen => hopen.not_barred hbarred
    show c ∈ state.taken before ↔ _
    simp [hopen]

/-- An open target is taken. -/
theorem Closing.Tracks.take (h : state.Tracks p module spec before noted)
    {source target : ClassId} (hopen : p.Open spec target) (htaken : target ∉ state.taken before)
    (hq : state.partition.Takes module {target} ∅ ∅ q) :
    Closing.Followed p module spec before noted source target state
      { partition := q, reached := state.reached + 1, fresh := target :: state.fresh } := by
  have hlist : Closing.taken before
      { partition := q, reached := state.reached + 1, fresh := target :: state.fresh } =
        state.taken before ++ [target] := by
    simp [Closing.taken]
  have hmem (c : ClassId) : c ∈ state.taken before ++ [target] ↔
      c ∈ state.taken before ∨ c = target := by
    simp
  refine ⟨⟨?_, ?_, ?_, ?_⟩, fun c => ?_⟩
  · refine (h.takes.trans hq).congr (fun c => ?_) (by simp) (by simp [hopen.not_barred])
    rw [Set.mem_ofPred_eq, hlist, hmem]
    rfl
  · rw [hlist]
    exact List.nodup_append.2 ⟨h.nodup, List.nodup_singleton _, fun c hc d hd heq =>
      htaken (List.mem_singleton.1 hd ▸ heq ▸ hc)⟩
  · rw [hlist]
    intro c hc
    rcases (hmem c).1 hc with hc | rfl
    · exact h.allOpen c hc
    · exact hopen
  · rw [hlist, List.length_append, ← h.reached_eq]
    rfl
  · rw [hlist, hmem]
    simp [hopen]

/-- A followed reference leads to a class that is open, and is taken unless it has been; or to one
that is barred, and is noted; or to one that has an owner. -/
theorem Closing.Tracks.ends_follow (h : state.Tracks p module spec before noted)
    (source target : ClassId) :
    Ends (follow module spec source state target).result
      (Closing.Followed p module spec before noted source target state) (fun _ => False) := by
  unfold follow
  dsimp only
  by_cases htaken : target ∈ state.taken before
  · -- a class taken by this search has an owner by now
    have hopen := h.allOpen target htaken
    obtain ⟨entry, he, -⟩ := hopen
    rw [h.takes.class_of_mem target htaken, he]
    exact h.keep (fun _ => htaken) (h.allOpen target htaken).not_barred
  rw [h.takes.class_of_not_mem target htaken]
  cases he : p.registry.classes[target]? with
  | none =>
    refine h.keep ?_ ?_
    · rintro ⟨entry, he', -⟩
      cases he.symm.trans he'
    · rintro ⟨entry, he', -⟩
      cases he.symm.trans he'
  | some entry =>
    dsimp only
    split_ifs with howner hstop
    · refine h.keep ?_ ?_
      · rintro ⟨entry', he', hnone, -⟩
        cases he.symm.trans he'
        simp [hnone] at howner
      · rintro ⟨entry', he', hnone, -⟩
        cases he.symm.trans he'
        simp [hnone] at howner
    · exact h.note ⟨entry, he, by simpa using howner, by simpa using hstop⟩
    · have hopen : p.Open spec target := by
        simp only [Bool.or_eq_true, not_or, Bool.not_eq_true, Bool.not_eq_false'] at hstop
        exact ⟨entry, he, by simpa using howner, hstop⟩
      have hfree : state.partition.registry.classOwner target = none := by
        rw [h.takes.classOwner_of_not_mem htaken, hopen.classOwner]
      simp only [Logged.result_bind, Logged.result_liftM, Logged.result_pure]
      exact (takes_claimClass hfree).bind fun q hq => h.take hopen htaken hq

/-- All references of a class are followed. -/
theorem Closing.Tracks.ends_expand (h : state.Tracks p module spec before noted)
    (source : ClassId) :
    Ends (expand module spec state source).result
      (fun s => s.Tracks p module spec before (noted ∪ p.barredFrom spec {source}) ∧
        ∀ c, c ∈ s.taken before ↔ c ∈ state.taken before ∨
          (c ∈ p.registry.referencesOf source ∧ p.Open spec c))
      (fun _ => False) := by
  rw [expand, Logged.result_foldlM, h.takes.referencesOf_eq]
  refine (Ends.foldlM_prefix
    (fun done s => s.Tracks p module spec before
        (noted ∪ {u | u.1 = source ∧ u.2 ∈ done ∧ p.Barred spec u.2}) ∧
      ∀ c, c ∈ s.taken before ↔ c ∈ state.taken before ∨ (c ∈ done ∧ p.Open spec c))
    [] (p.registry.referencesOf source) state ?_ ?_).weaken fun s hs => ?_
  · exact ⟨{ h with takes := h.takes.congr (by simp) (by simp) (by simp) }, by simp⟩
  · rintro done target after - s ⟨hs, hmem⟩
    refine (hs.ends_follow source target).weaken fun s' hs' => ?_
    obtain ⟨hs', hmem'⟩ := hs'
    refine ⟨?_, fun c => ?_⟩
    · refine { hs' with takes := hs'.takes.congr (by simp) (by simp) fun u => ?_ }
      obtain ⟨k, r⟩ := u
      simp only [Set.mem_union, Set.mem_ofPred_eq, Prod.mk.injEq, List.mem_append,
        List.mem_singleton, or_assoc]
      refine or_congr_right ?_
      constructor
      · rintro (⟨rfl, hr, hbarred⟩ | ⟨⟨rfl, rfl⟩, hbarred⟩)
        · exact ⟨rfl, .inl hr, hbarred⟩
        · exact ⟨rfl, .inr rfl, hbarred⟩
      · rintro ⟨rfl, hr | rfl, hbarred⟩
        · exact .inl ⟨rfl, hr, hbarred⟩
        · exact .inr ⟨⟨rfl, rfl⟩, hbarred⟩
    · rw [hmem', hmem, List.mem_append, List.mem_singleton, or_assoc]
      refine or_congr_right ?_
      constructor
      · rintro (⟨hc, hopen⟩ | ⟨rfl, hopen⟩)
        · exact ⟨.inl hc, hopen⟩
        · exact ⟨.inr rfl, hopen⟩
      · rintro ⟨hc | rfl, hopen⟩
        · exact .inl ⟨hc, hopen⟩
        · exact .inr ⟨rfl, hopen⟩
  · obtain ⟨htracks, hmem⟩ := hs
    refine ⟨{ htracks with takes := htracks.takes.congr (by simp) (by simp) fun u => ?_ }, hmem⟩
    obtain ⟨k, r⟩ := u
    simp only [barredFrom, Set.mem_union, Set.mem_ofPred_eq, Set.mem_singleton_iff, List.nil_append]
    refine or_congr_right (and_congr_right fun hk => ?_)
    rw [hk]

/-- One round: the references of all sources are followed. -/
theorem Closing.Tracks.ends_round (h : state.Tracks p module spec before noted)
    (sources : List ClassId) :
    Ends (sources.foldlM (fun s k => (expand module spec s k).result) state)
      (fun s => s.Tracks p module spec before (noted ∪ p.barredFrom spec {k | k ∈ sources}) ∧
        ∀ c, c ∈ s.taken before ↔ c ∈ state.taken before ∨
          ((∃ k ∈ sources, c ∈ p.registry.referencesOf k) ∧ p.Open spec c))
      (fun _ => False) := by
  refine (Ends.foldlM_prefix
    (fun done s => s.Tracks p module spec before (noted ∪ p.barredFrom spec {k | k ∈ done}) ∧
      ∀ c, c ∈ s.taken before ↔ c ∈ state.taken before ∨
        ((∃ k ∈ done, c ∈ p.registry.referencesOf k) ∧ p.Open spec c))
    [] sources state ?_ ?_)
  · exact ⟨{ h with takes := h.takes.congr (by simp) (by simp) (by simp) }, by simp⟩
  · rintro done source after - s ⟨hs, hmem⟩
    refine (hs.ends_expand source).weaken fun s' hs' => ?_
    obtain ⟨hs', hmem'⟩ := hs'
    refine ⟨?_, fun c => ?_⟩
    · refine { hs' with takes := hs'.takes.congr (by simp) (by simp) fun u => ?_ }
      simp only [barredFrom, Set.mem_union, Set.mem_ofPred_eq, Set.mem_singleton_iff,
        List.mem_append, List.mem_singleton, or_assoc, or_and_right]
    · rw [hmem', hmem, or_assoc]
      simp only [List.mem_append, List.mem_singleton, or_and_right, exists_or, exists_eq_left]

/-! ## Round after round -/

/-- How far a search has come: the references of the classes in `followed` have been followed, those
of `waiting` are next, and `before` has been taken. -/
structure Frontier (p : Partition) (spec : ModuleSpec) (seeds followed : Set ClassId)
    (waiting before : List ClassId) : Prop where
  from_seeds : ∀ k, k ∈ followed ∨ k ∈ waiting ↔ k ∈ seeds ∨ k ∈ before
  closed : ∀ k ∈ followed, ∀ r ∈ p.registry.referencesOf k, p.Open spec r → r ∈ before
  reached : ∀ c ∈ before, p.Reaches spec seeds c

theorem frontier_start (p : Partition) (spec : ModuleSpec) (seeds : List ClassId) :
    p.Frontier spec {c | c ∈ seeds} ∅ seeds [] := by
  constructor <;> simp

/-- A source of a search is a seed or is reached. -/
theorem Frontier.source {followed : Set ClassId} {waiting : List ClassId}
    (h : p.Frontier spec seeds followed waiting before) (hk : k ∈ followed ∨ k ∈ waiting) :
    k ∈ seeds ∨ p.Reaches spec seeds k :=
  ((h.from_seeds k).1 hk).imp_right (h.reached k)

/-- When nothing waits, everything that can be reached has been taken. -/
theorem Frontier.mem_iff {followed : Set ClassId}
    (h : p.Frontier spec seeds followed [] before) : c ∈ before ↔ p.Reaches spec seeds c := by
  refine ⟨h.reached c, fun hc => ?_⟩
  induction hc with
  | seed hk hr hopen =>
    have hfollowed := (h.from_seeds _).2 (.inl hk)
    exact h.closed _ (hfollowed.resolve_right List.not_mem_nil) _ hr hopen
  | step _ hr hopen ih =>
    have hfollowed := (h.from_seeds _).2 (.inr ih)
    exact h.closed _ (hfollowed.resolve_right List.not_mem_nil) _ hr hopen

/-- After a round, what it has taken waits for the next one. -/
theorem Frontier.next {followed : Set ClassId} {waiting fresh : List ClassId}
    (h : p.Frontier spec seeds followed waiting before)
    (hfresh : ∀ c, c ∈ before ++ fresh ↔ c ∈ before ∨
      ((∃ k ∈ waiting, c ∈ p.registry.referencesOf k) ∧ p.Open spec c)) :
    p.Frontier spec seeds (followed ∪ {k | k ∈ waiting}) fresh (before ++ fresh) where
  from_seeds k := by
    rw [Set.mem_union, Set.mem_ofPred_eq, h.from_seeds, List.mem_append, or_assoc]
  closed k hk r hr hopen := by
    rw [hfresh]
    rcases hk with hk | hk
    · exact .inl (h.closed k hk r hr hopen)
    · exact .inr ⟨⟨k, hk, hr⟩, hopen⟩
  reached c hc := by
    rcases (hfresh c).1 hc with hc | ⟨⟨k, hk, hr⟩, hopen⟩
    · exact h.reached c hc
    · rcases h.source (.inr hk) with hseed | hreached
      · exact .seed hseed hr hopen
      · exact .step hreached hr hopen

/-- A search that is over: it has taken what can be reached from the seeds. -/
structure Closing.Closed (p : Partition) (module : ModuleId) (spec : ModuleSpec)
    (seeds : Set ClassId) (state : Closing) : Prop where
  takes : p.Takes module {c | p.Reaches spec seeds c} ∅
    (p.barredFrom spec {k | k ∈ seeds ∨ p.Reaches spec seeds k}) state.partition
  reached : (state.reached : ℕ∞) = {c | p.Reaches spec seeds c}.encard

/-- The number of elements of a set that a list enumerates. -/
theorem encard_of_nodup {l : List ℕ} {S : Set ℕ} (hnodup : l.Nodup) (hmem : ∀ c, c ∈ l ↔ c ∈ S) :
    (l.length : ℕ∞) = S.encard := by
  have hS : S = (⟨l, hnodup⟩ : Finset ℕ) := by
    ext c
    exact (hmem c).symm
  rw [hS, Set.encard_coe_eq_coe_finsetCard]
  rfl

theorem Closing.taken_clear (before : List ClassId) (state : Closing) :
    Closing.taken before { state with fresh := [] } = before := by
  simp [Closing.taken]

/-- A search that has nothing left to follow is over. -/
theorem Closing.Tracks.closed {followed : Set ClassId}
    (h : Closing.Tracks p module spec before (p.barredFrom spec followed)
      { state with fresh := [] })
    (hfrontier : p.Frontier spec seeds followed [] before) :
    state.Closed p module spec seeds := by
  have htaken := Closing.taken_clear before state
  have hfollowed : followed = {k | k ∈ seeds ∨ p.Reaches spec seeds k} := by
    ext k
    rw [Set.mem_ofPred_eq, ← hfrontier.mem_iff, ← hfrontier.from_seeds]
    simp
  constructor
  · rw [← hfollowed]
    refine h.takes.congr (fun c => ?_) (fun _ => Iff.rfl) fun _ => Iff.rfl
    rw [htaken]
    exact hfrontier.mem_iff
  · have hnodup := h.nodup
    have hreached : state.reached = before.length := by
      rw [← htaken]
      exact h.reached_eq
    rw [htaken] at hnodup
    rw [hreached]
    exact encard_of_nodup hnodup fun c => hfrontier.mem_iff

/-- There are no more classes to take than the registry has. -/
theorem Closing.Tracks.length_le
    (h : Closing.Tracks p module spec before noted { state with fresh := [] }) :
    before.length ≤ p.registry.classes.size := by
  have hnodup := h.nodup
  have hopen := h.allOpen
  rw [Closing.taken_clear] at hnodup hopen
  have hsub := hnodup.subperm fun c hc => List.mem_range.2 (hopen c hc).lt_size
  simpa using hsub.length_le

/-- The next round starts where a round ends: what it has taken is to be followed. -/
theorem Closing.Tracks.next {followed waiting : Set ClassId}
    (h : state.Tracks p module spec before
      (p.barredFrom spec followed ∪ p.barredFrom spec waiting)) :
    Closing.Tracks p module spec (before ++ state.fresh.reverse)
      (p.barredFrom spec (followed ∪ waiting)) { state with fresh := [] } := by
  have htaken : Closing.taken (before ++ state.fresh.reverse) { state with fresh := [] } =
      state.taken before := Closing.taken_clear _ _
  constructor
  · rw [htaken, barredFrom_union]
    exact h.takes
  · rw [htaken]
    exact h.nodup
  · rw [htaken]
    exact h.allOpen
  · rw [htaken]
    exact h.reached_eq

/-- The rounds suffice: every round but the last takes a class, and there are no more classes than
the registry has. -/
theorem ends_followRounds_closed :
    ∀ (rounds : Nat) (waiting : List ClassId) {before : List ClassId} {followed : Set ClassId}
      {state : Closing}, p.Frontier spec seeds followed waiting before →
      Closing.Tracks p module spec before (p.barredFrom spec followed)
        { state with fresh := [] } →
      (waiting = [] ∨ p.registry.classes.size < rounds + before.length) →
      Ends (followRounds module spec rounds waiting state).result
        (Closing.Closed p module spec seeds) (fun _ => False)
  | 0, waiting, before, followed, state, hfrontier, htracks, hrounds => by
    have hwaiting : waiting = [] := by
      rcases hrounds with hwaiting | hlt
      · exact hwaiting
      · have hle := htracks.length_le
        omega
    subst hwaiting
    exact htracks.closed hfrontier
  | rounds + 1, [], before, followed, state, hfrontier, htracks, _ => htracks.closed hfrontier
  | rounds + 1, source :: waiting, before, followed, state, hfrontier, htracks, hrounds => by
    rw [followRounds, Logged.result_bind, Logged.result_foldlM]
    · refine (htracks.ends_round (source :: waiting)).bind fun s hs => ?_
      obtain ⟨hs, hmem⟩ := hs
      have hfresh (c : ClassId) : c ∈ before ++ s.fresh.reverse ↔ c ∈ before ∨
          ((∃ k ∈ source :: waiting, c ∈ p.registry.referencesOf k) ∧ p.Open spec c) := by
        have hc := hmem c
        rw [Closing.taken_clear] at hc
        exact hc
      refine ends_followRounds_closed rounds s.fresh.reverse (hfrontier.next hfresh) hs.next ?_
      cases hfreshList : s.fresh with
      | nil => exact .inl rfl
      | cons c fresh =>
        right
        rcases hrounds with hnil | hlt
        · cases hnil
        · simp only [List.reverse_cons, List.length_append, List.length_reverse,
            List.length_singleton]
          omega
    · simp

/-- The search of a completion takes exactly what the seeds reach. -/
theorem ends_search (p : Partition) (module : ModuleId) (spec : ModuleSpec)
    (seeds : List ClassId) :
    Ends (followRounds module spec (p.registry.classes.size + 1) seeds { partition := p }).result
      (Closing.Closed p module spec {c | c ∈ seeds}) (fun _ => False) := by
  refine ends_followRounds_closed _ seeds (frontier_start p spec seeds) ⟨?_, ?_, ?_, rfl⟩
    (.inr (by simp))
  · exact (Takes.refl p module).congr (by simp [Closing.taken]) (by simp) (by simp)
  · simp [Closing.taken]
  · simp [Closing.taken]

end Partition

end ModuleGraph

import ModuleGraph.Proofs.Ends

/-!
# Two computations that go alike

`Alike R x y` compares two runs: either both succeed, with values that `R` relates, or both fail. It
goes through sequences and loops step by step, as `Ends` does for one run. Which error a run fails
with is left open, since the first of several faults may be another one.
-/

namespace ModuleGraph

/-- Both computations succeed, with related values, or both fail. -/
def Alike {ε α β : Type} (R : α → β → Prop) (x : Except ε α) (y : Except ε β) : Prop :=
  match x, y with
  | .ok a, .ok b => R a b
  | .error _, .error _ => True
  | _, _ => False

namespace Alike

variable {ε α β γ δ σ τ : Type} {R R' : α → β → Prop} {S : γ → δ → Prop} {x : Except ε α}
  {y : Except ε β}

@[simp] theorem ok_iff {a : α} {b : β} : Alike R (.ok a : Except ε α) (.ok b) ↔ R a b := Iff.rfl

@[simp] theorem pure_iff {a : α} {b : β} :
    Alike R (pure a : Except ε α) (pure b : Except ε β) ↔ R a b := Iff.rfl

@[simp] theorem error {e e' : ε} : Alike R (.error e : Except ε α) (.error e' : Except ε β) :=
  trivial

theorem of_eq {x y : Except ε α} {R : α → α → Prop} (h : x = y) (hR : ∀ a, R a a) :
    Alike R x y := by
  subst h
  cases x with
  | ok a => exact hR a
  | error e => trivial

/-- Two computations that cannot fail. -/
theorem of_ends {good : α → Prop} {good' : β → Prop} (hx : Ends x good fun _ => False)
    (hy : Ends y good' fun _ => False) (hR : ∀ a b, good a → good' b → R a b) : Alike R x y := by
  cases x with
  | error e => exact (hx.of_error rfl).elim
  | ok a =>
    cases y with
    | error e => exact (hy.of_error rfl).elim
    | ok b => exact hR a b hx hy

theorem weaken (h : Alike R x y) (hR : ∀ a b, R a b → R' a b) : Alike R' x y := by
  cases x with
  | ok a =>
    cases y with
    | ok b => exact hR a b h
    | error e => exact h
  | error e =>
    cases y with
    | ok b => exact h
    | error e' => trivial

theorem bind {f : α → Except ε γ} {g : β → Except ε δ} (h : Alike R x y)
    (hfg : ∀ a b, R a b → Alike S (f a) (g b)) : Alike S (x >>= f) (y >>= g) := by
  cases x with
  | ok a =>
    cases y with
    | ok b => exact hfg a b h
    | error e => exact h.elim
  | error e =>
    cases y with
    | ok b => exact h.elim
    | error e' => trivial

/-- Two computations that begin with the same one. -/
theorem bind_same {f : α → Except ε γ} {g : α → Except ε δ} (x : Except ε α)
    (hfg : ∀ a, Alike S (f a) (g a)) : Alike S (x >>= f) (x >>= g) := by
  cases x with
  | ok a => exact hfg a
  | error e => trivial

/-- A loop over two lists whose entries are related, one by one. -/
theorem foldlM {f : σ → α → Except ε σ} {g : τ → β → Except ε τ} {Q : σ → τ → Prop}
    {l : List α} {l' : List β} (hl : List.Forall₂ R l l') {s : σ} {t : τ} (hs : Q s t)
    (hstep : ∀ s t a b, Q s t → R a b → Alike Q (f s a) (g t b)) :
    Alike Q (l.foldlM f s) (l'.foldlM g t) := by
  induction hl generalizing s t with
  | nil => exact hs
  | cons hab _ ih =>
    rw [List.foldlM_cons, List.foldlM_cons]
    exact (hstep s t _ _ hs hab).bind fun s' t' hs' => ih hs'

/-- A loop over one list. -/
theorem foldlM_same {f : σ → α → Except ε σ} {g : τ → α → Except ε τ} {Q : σ → τ → Prop}
    (l : List α) {s : σ} {t : τ} (hs : Q s t)
    (hstep : ∀ s t a, Q s t → a ∈ l → Alike Q (f s a) (g t a)) :
    Alike Q (l.foldlM f s) (l.foldlM g t) := by
  refine foldlM (R := fun a b => a = b ∧ a ∈ l) (List.forall₂_same.2 fun a ha => ⟨rfl, ha⟩) hs ?_
  rintro s t a _ hst ⟨rfl, ha⟩
  exact hstep s t a hst ha

theorem mapM {f : α → Except ε γ} {g : β → Except ε δ} {l : List α} {l' : List β}
    (hl : List.Forall₂ R l l') (hfg : ∀ a b, R a b → Alike S (f a) (g b)) :
    Alike (List.Forall₂ S) (l.mapM f) (l'.mapM g) := by
  induction hl with
  | nil => exact .nil
  | cons hab _ ih =>
    rw [List.mapM_cons, List.mapM_cons]
    refine (hfg _ _ hab).bind fun c d hcd => ih.bind fun cs ds hcsds => ?_
    exact .cons hcd hcsds

theorem ok_or_error (h : Alike R x y) :
    (∃ a b, x = .ok a ∧ y = .ok b ∧ R a b) ∨ ∃ e e', x = .error e ∧ y = .error e' := by
  cases x with
  | ok a =>
    cases y with
    | ok b => exact .inl ⟨a, b, rfl, rfl, h⟩
    | error e => exact h.elim
  | error e =>
    cases y with
    | ok b => exact h.elim
    | error e' => exact .inr ⟨e, e', rfl, rfl⟩

theorem exists_of_ok (h : Alike R x y) {a : α} (hx : x = .ok a) : ∃ b, y = .ok b ∧ R a b := by
  subst hx
  cases y with
  | ok b => exact ⟨b, rfl, h⟩
  | error e => exact h.elim

theorem of_ok_iff (h : (∃ a, x = .ok a) ↔ ∃ b, y = .ok b)
    (hR : ∀ a b, x = .ok a → y = .ok b → R a b) : Alike R x y := by
  cases x with
  | ok a =>
    obtain ⟨b, rfl⟩ := h.1 ⟨a, rfl⟩
    exact hR a b rfl rfl
  | error e =>
    cases y with
    | ok b => simp at h
    | error e' => trivial

theorem exists_ok_iff (h : Alike R x y) : (∃ a, x = .ok a) ↔ ∃ b, y = .ok b := by
  cases x with
  | ok a =>
    cases y with
    | ok b => simp
    | error e => exact h.elim
  | error e =>
    cases y with
    | ok b => exact h.elim
    | error e' => simp

theorem of_ok (h : Alike R x y) {a : α} {b : β} (hx : x = .ok a) (hy : y = .ok b) : R a b := by
  subst hx hy
  exact h

end Alike

/-! ## Related options -/

section

variable {α β γ : Type} {R : α → β → Prop} {x : Option α} {y : Option β}

theorem rel_exists (h : Option.Rel R x y) {a : α} (hx : x = some a) : ∃ b, y = some b ∧ R a b := by
  cases h with
  | some hab =>
    cases hx
    exact ⟨_, rfl, hab⟩
  | none => cases hx

theorem rel_exists_iff (h : Option.Rel R x y) {P : α → Prop} {Q : β → Prop}
    (hPQ : ∀ a b, R a b → (P a ↔ Q b)) : (∃ a, x = some a ∧ P a) ↔ ∃ b, y = some b ∧ Q b := by
  cases h with
  | some hab => simpa using hPQ _ _ hab
  | none => simp

theorem rel_elim_eq (h : Option.Rel R x y) {f : α → γ} {g : β → γ}
    (hfg : ∀ a b, R a b → g b = f a) (none : γ) : y.elim none g = x.elim none f := by
  cases h with
  | some hab => exact hfg _ _ hab
  | none => rfl

theorem rel_flip (h : Option.Rel R x y) {R' : β → α → Prop} (hR : ∀ a b, R a b → R' b a) :
    Option.Rel R' y x := by
  cases h with
  | some hab => exact .some (hR _ _ hab)
  | none => exact .none

theorem rel_imp (h : Option.Rel R x y) {R' : α → β → Prop} (hR : ∀ a b, R a b → R' a b) :
    Option.Rel R' x y := by
  cases h with
  | some hab => exact .some (hR _ _ hab)
  | none => exact .none

theorem rel_map {α' β' : Type} (h : Option.Rel R x y) {R' : α' → β' → Prop} {f : α → α'}
    {g : β → β'} (hR : ∀ a b, R a b → R' (f a) (g b)) : Option.Rel R' (x.map f) (y.map g) := by
  cases h with
  | some hab => exact .some (hR _ _ hab)
  | none => exact .none

end

end ModuleGraph

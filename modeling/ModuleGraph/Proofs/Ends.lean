import ModuleGraph.Event
import Mathlib.Data.List.Forall2

/-!
# How computations end

`Ends x good bad` states both endings of a computation at once: a value satisfies `good`, an error
satisfies `bad`. One such statement for each function of the engine serves two kinds of theorem:
what holds of every successful build, and which errors a build can end in.

* `Ends.bind` and `Ends.foldlM` take a sequence and a loop apart. The invariant of a loop may
  mention the part of the list that is already done.
* `Logged.result_foldlM` and `Logged.result_forM` forget the events of a logged loop.
-/

namespace ModuleGraph

/-- A value of the computation satisfies `good`, an error of it `bad`. -/
def Ends (x : Except ε α) (good : α → Prop) (bad : ε → Prop) : Prop :=
  match x with
  | .ok a => good a
  | .error e => bad e

namespace Ends

variable {ε α β σ : Type} {x : Except ε α} {good good' : α → Prop} {bad bad' : ε → Prop}

@[simp] theorem ok_iff {a : α} : Ends (.ok a : Except ε α) good bad ↔ good a := Iff.rfl

@[simp] theorem error_iff {e : ε} : Ends (.error e : Except ε α) good bad ↔ bad e := Iff.rfl

@[simp] theorem pure_iff {a : α} : Ends (pure a : Except ε α) good bad ↔ good a := Iff.rfl

theorem of_ok {a : α} (h : Ends x good bad) (hx : x = .ok a) : good a := by
  subst hx; exact h

theorem of_error {e : ε} (h : Ends x good bad) (hx : x = .error e) : bad e := by
  subst hx; exact h

theorem self (x : Except ε α) : Ends x (fun a => x = .ok a) fun _ => True := by
  cases x <;> trivial

theorem mono (h : Ends x good bad) (hgood : ∀ a, good a → good' a)
    (hbad : ∀ e, bad e → bad' e) : Ends x good' bad' := by
  cases x with
  | ok a => exact hgood a h
  | error e => exact hbad e h

theorem weaken (h : Ends x good bad) (hgood : ∀ a, good a → good' a) : Ends x good' bad :=
  h.mono hgood fun _ he => he

/-- Two statements about one computation. -/
theorem and (h : Ends x good bad) (h' : Ends x good' bad') :
    Ends x (fun a => good a ∧ good' a) bad := by
  cases x with
  | ok a => exact ⟨h, h'⟩
  | error e => exact h

/-- What holds of the first value decides how the rest ends. -/
theorem bind {f : α → Except ε β} {final : β → Prop} (h : Ends x good bad)
    (hf : ∀ a, good a → Ends (f a) final bad) : Ends (x >>= f) final bad := by
  cases x with
  | ok a => exact hf a h
  | error e => exact h

theorem ok_bind {a : α} {f : α → Except ε β} {final : β → Prop} (h : Ends (f a) final bad) :
    Ends (Except.ok a >>= f) final bad := h

theorem map {f : α → β} {final : β → Prop} (h : Ends x (fun a => final (f a)) bad) :
    Ends (x.map f) final bad := by
  cases x with
  | ok a => exact h
  | error e => exact h

/-! ## Loops -/

/-- A loop whose invariant speaks of the part of the list that is done. -/
theorem foldlM_prefix {f : σ → α → Except ε σ} (inv : List α → σ → Prop) :
    ∀ (done rest : List α) (s : σ), inv done s →
      (∀ before a after, done ++ rest = before ++ a :: after → ∀ s, inv before s →
        Ends (f s a) (inv (before ++ [a])) bad) →
      Ends (rest.foldlM f s) (inv (done ++ rest)) bad
  | done, [], s, hs, _ => by simpa using hs
  | done, a :: rest, s, hs, hstep => by
    rw [List.foldlM_cons]
    refine (hstep done a rest rfl s hs).bind fun s' hs' => ?_
    have := foldlM_prefix inv (done ++ [a]) rest s' hs' (by simpa using hstep)
    simpa using this

/-- A loop that keeps an invariant. -/
theorem foldlM {f : σ → α → Except ε σ} (inv : σ → Prop) {l : List α} {s : σ} (hs : inv s)
    (hstep : ∀ s, inv s → ∀ a ∈ l, Ends (f s a) inv bad) : Ends (l.foldlM f s) inv bad := by
  refine foldlM_prefix (fun _ => inv) [] l s hs fun before a after hl s hs => ?_
  exact hstep s hs a (by simp only [List.nil_append] at hl; simp [hl])

theorem mapM {f : α → Except ε β} {inv : α → β → Prop} :
    ∀ {l : List α}, (∀ a ∈ l, Ends (f a) (inv a) bad) →
      Ends (l.mapM f) (List.Forall₂ inv l) bad
  | [], _ => by simp
  | a :: l, hf => by
    rw [List.mapM_cons]
    refine (hf a (by simp)).bind fun b hb => ?_
    refine (mapM fun a ha => hf a (by simp [ha])).bind fun bs hbs => ?_
    exact .cons hb hbs

/-- A loop of which only the errors matter. -/
theorem mapM_errors {f : α → Except ε β} {l : List α}
    (hf : ∀ a ∈ l, Ends (f a) (fun _ => True) bad) : Ends (l.mapM f) (fun _ => True) bad :=
  (mapM hf).weaken fun _ _ => trivial

/-- A loop of checks: what each step finds out of its entry holds of all entries. -/
theorem foldlM_forall {f : σ → α → Except ε σ} {inv : α → Prop} {l : List α} {s : σ}
    (hf : ∀ s, ∀ a ∈ l, Ends (f s a) (fun _ => inv a) bad) :
    Ends (l.foldlM f s) (fun _ => ∀ a ∈ l, inv a) bad := by
  induction l generalizing s with
  | nil => simp
  | cons a l ih =>
    rw [List.foldlM_cons]
    refine (hf s a List.mem_cons_self).bind fun s' ha => ?_
    refine (ih fun s b hb => hf s b (List.mem_cons_of_mem _ hb)).weaken fun _ hl => ?_
    exact List.forall_mem_cons.2 ⟨ha, hl⟩

theorem forM_forall {f : α → Except ε Unit} {inv : α → Prop} {l : List α}
    (hf : ∀ a ∈ l, Ends (f a) (fun _ => inv a) bad) :
    Ends (l.forM f) (fun _ => ∀ a ∈ l, inv a) bad := by
  induction l with
  | nil => simp
  | cons a l ih =>
    show Ends (f a >>= fun _ => l.forM f) _ _
    refine (hf a List.mem_cons_self).bind fun _ ha => ?_
    refine (ih fun b hb => hf b (List.mem_cons_of_mem _ hb)).weaken fun _ hl => ?_
    exact List.forall_mem_cons.2 ⟨ha, hl⟩

theorem mapM_forall {f : α → Except ε β} {inv : α → Prop} {l : List α}
    (hf : ∀ a ∈ l, Ends (f a) (fun _ => inv a) bad) :
    Ends (l.mapM f) (fun _ => ∀ a ∈ l, inv a) bad := by
  refine (mapM hf).weaken fun bs hbs => ?_
  clear hf
  induction hbs with
  | nil => simp
  | cons ha _ ih => exact List.forall_mem_cons.2 ⟨ha, ih⟩

theorem forM {f : α → Except ε Unit} {l : List α} (hf : ∀ a ∈ l, Ends (f a) (fun _ => True) bad) :
    Ends (l.forM f) (fun _ => True) bad :=
  (forM_forall hf).weaken fun _ _ => trivial

end Ends

/-! ## Computations that succeed -/

section

variable {ε α β : Type}

theorem ok_bind (a : α) (f : α → Except ε β) : (Except.ok a >>= f) = f a := rfl

theorem exists_of_bind_ok {x : Except ε α} {f : α → Except ε β} {b : β}
    (h : x >>= f = .ok b) : ∃ a, x = .ok a ∧ f a = .ok b := by
  cases x with
  | ok a => exact ⟨a, rfl, h⟩
  | error e => cases h

theorem bind_eq_of_ok {x : Except ε α} {f : α → Except ε β} {a : α} {r : Except ε β}
    (hx : x = .ok a) (hf : f a = r) : x >>= f = r := by
  rw [hx]
  exact hf

theorem bind_eq_of_error {x : Except ε α} {f : α → Except ε β} {e : ε} (hx : x = .error e) :
    x >>= f = .error e := by
  rw [hx]
  rfl

/-- A loop succeeds only if every step does. -/
theorem forM_ok {f : α → Except ε Unit} {l : List α} (h : l.forM f = .ok ()) :
    ∀ a ∈ l, f a = .ok () := by
  induction l with
  | nil =>
    intro a ha
    cases ha
  | cons b l ih =>
    obtain ⟨_, hb, hrest⟩ := exists_of_bind_ok (f := fun _ => l.forM f) h
    intro a ha
    rcases List.mem_cons.1 ha with rfl | ha
    · exact hb
    · exact ih hrest a ha

theorem forM_eq_ok {f : α → Except ε Unit} {l : List α} (h : ∀ a ∈ l, f a = .ok ()) :
    l.forM f = .ok () := by
  induction l with
  | nil => rfl
  | cons a l ih =>
    show f a >>= (fun _ => l.forM f) = .ok ()
    rw [h a List.mem_cons_self]
    exact ih fun b hb => h b (List.mem_cons_of_mem _ hb)

theorem mapM_eq_ok {f : α → Except ε β} {l : List α} {l' : List β}
    (h : List.Forall₂ (fun a b => f a = .ok b) l l') : l.mapM f = .ok l' := by
  induction h with
  | nil => rfl
  | cons ha _ ih =>
    rw [List.mapM_cons, ha, ok_bind, ih]
    rfl

theorem exists_mapM_ok {f : α → Except ε β} {l : List α} (h : ∀ a ∈ l, ∃ b, f a = .ok b) :
    ∃ bs, l.mapM f = .ok bs := by
  have hends : Ends (l.mapM f) (fun _ => True) fun _ => False := Ends.mapM_errors fun a ha => by
    obtain ⟨b, hb⟩ := h a ha
    rw [hb]
    trivial
  cases hl : l.mapM f with
  | ok bs => exact ⟨bs, rfl⟩
  | error e => exact (hends.of_error hl).elim

/-- What stands in the second of two related lists is related to something in the first one. -/
theorem exists_of_forall₂ {R : α → β → Prop} {l : List α} {l' : List β} (h : List.Forall₂ R l l')
    {b : β} (hb : b ∈ l') : ∃ a ∈ l, R a b := by
  induction h with
  | nil => cases hb
  | cons hab _ ih =>
    rcases List.mem_cons.1 hb with rfl | hb
    · exact ⟨_, List.mem_cons_self, hab⟩
    · obtain ⟨a, ha, hab'⟩ := ih hb
      exact ⟨a, List.mem_cons_of_mem _ ha, hab'⟩

end

/-! ## Deciding how a computation ends -/

section

variable {ε α : Type}

instance decidableEqError (x : Except ε α) (e : ε) [DecidableEq ε] : Decidable (x = .error e) :=
  match x with
  | .ok _ => isFalse nofun
  | .error e' => decidable_of_iff (e' = e) (by simp)

instance decidableExistsOk (x : Except ε α) (p : α → Prop) [DecidablePred p] :
    Decidable (∃ a, x = .ok a ∧ p a) :=
  match x with
  | .ok a => decidable_of_iff (p a) (by simp)
  | .error _ => isFalse nofun

end

/-- A loop without errors whose invariant speaks of the part of the list that is done. -/
theorem foldl_prefix {α σ : Type} {f : σ → α → σ} (inv : List α → σ → Prop) :
    ∀ (done rest : List α) (s : σ), inv done s →
      (∀ before a after, done ++ rest = before ++ a :: after → ∀ s, inv before s →
        inv (before ++ [a]) (f s a)) →
      inv (done ++ rest) (rest.foldl f s)
  | done, [], s, hs, _ => by simpa using hs
  | done, a :: rest, s, hs, hstep => by
    have hs' := hstep done a rest rfl s hs
    have := foldl_prefix inv (done ++ [a]) rest (f s a) hs' (by simpa using hstep)
    simpa using this

/-! ## Logged loops -/

namespace Logged

variable {ε α β σ : Type}

@[simp] theorem result_liftM (x : Except ε α) : (liftM x : Logged ε α).result = x := rfl

@[simp] theorem result_foldlM (f : σ → α → Logged ε σ) (l : List α) (s : σ) :
    (l.foldlM f s).result = l.foldlM (fun s a => (f s a).result) s := by
  induction l generalizing s with
  | nil => rfl
  | cons a l ih => simp only [List.foldlM_cons, result_bind, ih]

@[simp] theorem result_forM (f : α → Logged ε Unit) (l : List α) :
    (l.forM f).result = l.forM fun a => (f a).result := by
  induction l with
  | nil => rfl
  | cons a l ih =>
    show (f a >>= fun _ => l.forM f).result = _
    rw [result_bind]
    simp only [ih]
    rfl

end Logged

end ModuleGraph

import ModuleGraph.Proofs.PermitPasses

/-!
# Permits that agree with the dependences

`ModuleInfos.fixpoint_of_fixPermits`: in a graph that lacks no target, the permit passes go through,
change permits only, give them their closed form and count their growth; and they have nothing left
to do afterwards, which is why permits may be frozen then.

What carries the second run is `ModuleInfos.Agreed`. Whether a module permits its requesters at all
is decided by the permits and local edges it starts with, so after one run every requester that is
due a permit has it. A run over permits that agree asks for no new one
(`ModuleInfos.fixPermits_of_agreed`), and so does not meet a frozen module either.
-/

namespace ModuleGraph

namespace ModuleInfos

variable {infos infos' : ModuleInfos} {test : ModuleInfo → Bool} {edge : Edge}

/-! ## The count -/

/-- The number of permits of all modules. -/
def permitCount (infos : ModuleInfos) : Nat :=
  (infos.values.map fun info => info.permits.size).sum

theorem size_addPermit {info info' : ModuleInfo} {permit : String} {added : Bool}
    (h : info.addPermit permit = .ok (info', added)) :
    info'.permits.size = info.permits.size + added.toNat := by
  unfold ModuleInfo.addPermit at h
  split_ifs at h with hold hfrozen
  · cases h
    rfl
  · cases h
    rw [Std.TreeSet.size_insert, if_neg hold]
    rfl

theorem permitCount_permitIf {added : Nat} (h : permitIf test infos edge = .ok (infos', added)) :
    infos'.permitCount = infos.permitCount + added := by
  unfold permitIf at h
  cases htarget : infos[edge.target]? with
  | none =>
    rw [htarget] at h
    cases h
  | some target =>
    rw [htarget] at h
    dsimp only at h
    split_ifs at h with htest
    · obtain ⟨⟨permitted, new⟩, hadd, h⟩ := exists_of_bind_ok h
      cases h
      have hsize := size_addPermit hadd
      have hsum := treeMap_sum_insert (fun info : ModuleInfo => info.permits.size) infos
        edge.target permitted
      rw [htarget, Option.elim_some] at hsum
      unfold permitCount
      dsimp only at hsize ⊢
      omega
    · cases h
      rfl

theorem permitCount_permitAll :
    ∀ (edges : List Edge) {infos infos' : ModuleInfos} {added total : Nat},
      permitAll test infos added edges = (infos', .ok total) →
      infos'.permitCount + added = infos.permitCount + total
  | [], _, _, _, _, h => by
    cases h
    rfl
  | edge :: edges, infos, infos', added, total, h => by
    rw [permitAll] at h
    cases hres : permitIf test infos edge with
    | error e =>
      rw [hres] at h
      cases h
    | ok r =>
      obtain ⟨next, more⟩ := r
      rw [hres] at h
      have hstep := permitCount_permitIf hres
      have hrest := permitCount_permitAll edges h
      omega

/-- The count is the growth of all permits together. -/
theorem permitCount_fixPermits {added : Nat} (h : infos.fixPermits = (infos', .ok added)) :
    infos'.permitCount = infos.permitCount + added := by
  unfold fixPermits at h
  dsimp only at h
  cases hfirst : permitAll (fun _ => true) infos 0 (infos.edges.filter (·.isLocal)) with
  | mk middle result =>
    rw [hfirst] at h
    cases result with
    | error e => cases h
    | ok first =>
      have hlocal := permitCount_permitAll _ hfirst
      have hall := permitCount_permitAll _ h
      omega

/-! ## A run without anything to add -/

/-- Every requester that is due a permit has it. -/
def Agreed (infos : ModuleInfos) : Prop :=
  ∀ (X : ModuleId) info name, infos[X]? = some info → infos.Requires name X →
    infos.Admits X info → name ∈ info.permits

/-- The targets of edges that pass the test permit the requesters already. -/
def Granted (test : ModuleInfo → Bool) (infos : ModuleInfos) (edge : Edge) : Prop :=
  ∃ target, infos[edge.target]? = some target ∧
    (test target = true → edge.requester ∈ target.permits)

theorem Granted.of_equiv (h : Granted test infos edge) (hequiv : Std.TreeMap.Equiv infos' infos) :
    Granted test infos' edge := by
  unfold Granted
  rw [hequiv.getElem?_eq]
  exact h

theorem Granted.permitIf_eq (h : Granted test infos edge) :
    ∃ infos', permitIf test infos edge = .ok (infos', 0) ∧ Std.TreeMap.Equiv infos' infos := by
  obtain ⟨target, htarget, hpermits⟩ := h
  unfold permitIf
  rw [htarget]
  dsimp only
  split_ifs with htest
  · have hold : target.permits.contains edge.requester = true :=
      Std.TreeSet.contains_iff_mem.2 (hpermits htest)
    unfold ModuleInfo.addPermit
    rw [if_pos hold]
    exact ⟨_, rfl, treeMap_equiv_insert_self htarget⟩
  · exact ⟨infos, rfl, .rfl⟩

theorem permitAll_of_granted :
    ∀ (edges : List Edge) {infos : ModuleInfos} (added : Nat),
      (∀ edge ∈ edges, Granted test infos edge) →
      ∃ infos', permitAll test infos added edges = (infos', .ok added) ∧
        Std.TreeMap.Equiv infos' infos
  | [], infos, _, _ => ⟨infos, rfl, .rfl⟩
  | edge :: edges, infos, added, h => by
    obtain ⟨next, hstep, hnext⟩ := (h edge List.mem_cons_self).permitIf_eq
    obtain ⟨infos', hrest, hequiv⟩ := permitAll_of_granted edges added fun e he =>
      (h e (List.mem_cons_of_mem _ he)).of_equiv hnext
    refine ⟨infos', ?_, hequiv.trans hnext⟩
    rw [permitAll, hstep]
    exact hrest

/-- The passes ask for no new permit, so that none can be refused. -/
theorem fixPermits_of_agreed (h : infos.Agreed) (hclosed : infos.Closed) :
    ∃ again, infos.fixPermits = (again, .ok 0) ∧ Std.TreeMap.Equiv again infos := by
  have hlocal (edge : Edge) (hedge : edge ∈ infos.edges.filter (·.isLocal)) :
      Granted (fun _ => true) infos edge := by
    obtain ⟨target, htarget⟩ := hclosed.exists_target (List.mem_filter.1 hedge).1
    have hrequires : infos.RequiresLocally edge.requester edge.target :=
      requiresLocally_iff.2 ⟨edge, hedge, rfl, rfl⟩
    exact ⟨target, htarget, fun _ =>
      h _ _ _ htarget hrequires.requires (.inr ⟨edge.requester, hrequires⟩)⟩
  have hall (edge : Edge) (hedge : edge ∈ infos.edges) :
      Granted (fun info => !info.permits.isEmpty) infos edge := by
    obtain ⟨target, htarget⟩ := hclosed.exists_target hedge
    exact ⟨target, htarget, fun hsome =>
      h _ _ _ htarget (requires_iff.2 ⟨edge, hedge, rfl, rfl⟩) (.inl (exists_permit_iff.1 hsome))⟩
  obtain ⟨middle, hfirst, hmiddle⟩ := permitAll_of_granted _ 0 hlocal
  obtain ⟨again, hsecond, hagain⟩ := permitAll_of_granted infos.edges 0 fun edge hedge =>
    (hall edge hedge).of_equiv hmiddle
  refine ⟨again, ?_, hagain.trans hmiddle⟩
  unfold fixPermits
  dsimp only
  rw [hfirst]
  exact hsecond

theorem SameButPermits.closed (h : infos.SameButPermits infos') (hclosed : infos.Closed) :
    infos'.Closed := by
  intro X info hX dep hdep
  obtain ⟨before, hbefore, -, hrequires⟩ := h.symm.exists_requirer hX
  rw [← hrequires] at hdep
  obtain ⟨target, htarget⟩ := hclosed X before hbefore dep hdep
  exact (h.exists_after htarget).imp fun _ htarget => htarget.1

/-- One run makes permits agree: what a module admits by then it admitted at the start. -/
theorem agreed_of_fixPermits {added : Nat} (h : infos.fixPermits = (infos', .ok added)) :
    infos'.Agreed := by
  obtain ⟨hsame, hpermits⟩ := fixPermits_permits h
  intro X info' name hX' hrequires hadmits
  obtain ⟨info, hX, -⟩ := hsame.exists_before hX'
  rw [hpermits X info info' hX hX']
  refine ⟨.inr (hsame.requires_iff.1 hrequires), ?_⟩
  rcases hadmits with ⟨permit, hpermit⟩ | ⟨requester, hlocal⟩
  · exact ((hpermits X info info' hX hX' permit).1 hpermit).2
  · exact .inr ⟨requester, hsame.requiresLocally_iff.1 hlocal⟩

theorem Agreed.freeze (h : infos.Agreed) : infos.freeze.Agreed := by
  intro X frozen name hX hrequires hadmits
  have hsame := infos.sameButPermits_freeze
  unfold ModuleInfos.freeze at hX
  rw [Std.TreeMap.getElem?_map, Option.map_eq_some_iff] at hX
  obtain ⟨info, hinfo, rfl⟩ := hX
  refine h X info name hinfo (hsame.requires_iff.1 hrequires) ?_
  refine hadmits.imp_right ?_
  rintro ⟨requester, hlocal⟩
  exact ⟨requester, hsame.requiresLocally_iff.1 hlocal⟩

/-! ## The whole run -/

/-- What has become of the permits when `added` of them have come in. -/
structure Fixed (infos infos' : ModuleInfos) (added : Nat) : Prop where
  /-- Nothing but permits changes. -/
  same (X : ModuleId) : infos'[X]?.map (fun info => { info with permits := {} }) =
    infos[X]?.map fun info => { info with permits := {} }
  permits (X : ModuleId) info info' : infos[X]? = some info → infos'[X]? = some info' →
    ∀ name, name ∈ info'.permits ↔
      (name ∈ info.permits ∨ infos.Requires name X) ∧ infos.Admits X info
  growth : infos'.permitCount = infos.permitCount + added

theorem unpermitted_of_unfrozen {info : ModuleInfo} (h : info.frozen = false) :
    info.unpermitted = { info with permits := {} } := by
  unfold ModuleInfo.unpermitted
  rw [← h]

/-- The mark of frozen permits does not change either if there is none. -/
theorem SameButPermits.same_of_unfrozen (h : infos.SameButPermits infos')
    (hfrozen : infos.Unfrozen) (hfrozen' : infos'.Unfrozen) (X : ModuleId) :
    infos'[X]?.map (fun info => { info with permits := {} }) =
      infos[X]?.map fun info => { info with permits := {} } := by
  cases hX : infos[X]? with
  | none =>
    have hsame := h X
    rw [hX, Option.map_none, Option.map_eq_none_iff] at hsame
    rw [hsame]
  | some info =>
    obtain ⟨info', hX', heq⟩ := h.exists_after hX
    rw [hX', Option.map_some, Option.map_some, ← unpermitted_of_unfrozen (hfrozen X info hX),
      ← unpermitted_of_unfrozen (hfrozen' X info' hX'), heq]

/-- If every target is there and no permits are frozen, the passes go through, change permits alone
and count their growth; and the permits agree with the dependences then, so that another run has
nothing to add, be the permits frozen or not. -/
theorem fixpoint_of_fixPermits (hfrozen : infos.Unfrozen) (hclosed : infos.Closed) :
    ∃ infos' added, infos.fixPermits = (infos', .ok added) ∧ Fixed infos infos' added ∧
      (∃ again, infos'.fixPermits = (again, .ok 0) ∧ Std.TreeMap.Equiv again infos') ∧
      ∃ again, infos'.freeze.fixPermits = (again, .ok 0) ∧
        Std.TreeMap.Equiv again infos'.freeze := by
  obtain ⟨hsame, hfrozen', hends⟩ := ends_fixPermits hfrozen hclosed
  cases hrun : infos.fixPermits with
  | mk infos' result =>
    rw [hrun] at hsame hfrozen' hends
    cases result with
    | error e => exact hends.elim
    | ok added =>
      have hagreed := agreed_of_fixPermits hrun
      have hclosed' := hsame.closed hclosed
      refine ⟨infos', added, rfl, ?_, fixPermits_of_agreed hagreed hclosed',
        fixPermits_of_agreed hagreed.freeze (infos'.sameButPermits_freeze.closed hclosed')⟩
      constructor
      case same => exact hsame.same_of_unfrozen hfrozen hfrozen'
      case permits => exact (fixPermits_permits hrun).2
      case growth => exact permitCount_fixPermits hrun

/-- Two requesters of one module, one of them local, and a module with a requester that is not. -/
def starGraph : ModuleInfos :=
  let modules : List ModuleInfo := [
    { module := 0, name := "a", version := "1.0",
      requires := [.onModule 2 "c" { isLocal := true }] },
    { module := 1, name := "b", version := "1.0",
      requires := [.onModule 2 "c" {}, .onModule 3 "d" {}] },
    { module := 2, name := "c", version := "1.0" },
    { module := 3, name := "d", version := "1.0" }]
  .ofList (modules.map fun info => (info.module, info))

/-- The local requester is permitted, and the other one after it. -/
theorem fixpoint_starGraph :
    starGraph.Unfrozen ∧ starGraph.Closed ∧
      ∃ infos', starGraph.fixPermits = (infos', .ok 2) ∧ Fixed starGraph infos' 2 ∧
        infos'.values.map (·.permits.toList) = [[], [], ["a", "b"], []] := by
  have hfrozen : starGraph.Unfrozen := by
    intro X info hX
    have hall : ∀ entry ∈ starGraph.toList, entry.2.frozen = false := by decide +kernel
    exact hall _ (Std.TreeMap.mem_toList_iff_getElem?_eq_some.2 hX)
  have hclosed : starGraph.Closed := by
    intro X info hX dep hdep
    have hall : ∀ entry ∈ starGraph.toList, ∀ dep ∈ entry.2.requires,
        starGraph[dep.module]?.isSome := by decide +kernel
    exact Option.isSome_iff_exists.1
      (hall _ (Std.TreeMap.mem_toList_iff_getElem?_eq_some.2 hX) dep hdep)
  obtain ⟨infos', added, hrun, hfixed, -⟩ := fixpoint_of_fixPermits hfrozen hclosed
  have hadded : starGraph.fixPermits.2 = .ok 2 := by decide +kernel
  have hpermits : starGraph.fixPermits.1.values.map (·.permits.toList) =
      [[], [], ["a", "b"], []] := by decide +kernel
  rw [hrun] at hadded hpermits
  cases hadded
  exact ⟨hfrozen, hclosed, infos', hrun, hfixed, hpermits⟩

end ModuleInfos

end ModuleGraph

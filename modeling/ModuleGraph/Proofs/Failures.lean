import ModuleGraph.Proofs.Builder
import ModuleGraph.Proofs.Registry.Population

/-!
# Failures of a validated configuration

Validation reads every pattern that a build will read. So the build of a validated configuration is
the build of a plan, plain or for a platform, and fails only as those do: over its modules and what
they say of each other, never over a pattern and never within the engine.

* `Configuration.exists_builder`: what validation has accepted can be built.
* `Configuration.failure_of_validate`: the ways in which this can fail.
-/

namespace ModuleGraph

/-- Validation has read the patterns of a module. -/
theorem ModuleDeclaration.exists_patterns {m : ModuleDeclaration} (h : m.validate = .ok ()) :
    ∃ roots includes excludes, readPatterns m.name m.roots = .ok roots ∧
      readPatterns m.name m.includes = .ok includes ∧
      readPatterns m.name m.excludes = .ok excludes := by
  unfold validate at h
  obtain ⟨_, _, h⟩ := exists_of_bind_ok h
  obtain ⟨_, _, h⟩ := exists_of_bind_ok h
  obtain ⟨_, _, h⟩ := exists_of_bind_ok h
  obtain ⟨_, _, h⟩ := exists_of_bind_ok h
  obtain ⟨_, _, h⟩ := exists_of_bind_ok h
  obtain ⟨roots, hroots, h⟩ := exists_of_bind_ok h
  obtain ⟨includes, hincludes, h⟩ := exists_of_bind_ok h
  obtain ⟨excludes, hexcludes, _⟩ := exists_of_bind_ok h
  exact ⟨roots, includes, excludes, hroots, hincludes, hexcludes⟩

theorem ModuleDeclaration.exists_spec {m : ModuleDeclaration} (h : m.validate = .ok ())
    (defaultVersion : String) : ∃ spec, m.spec defaultVersion = .ok spec := by
  obtain ⟨roots, includes, excludes, hroots, hincludes, hexcludes⟩ := exists_patterns h
  unfold spec
  rw [h, hroots, hincludes, hexcludes]
  exact ⟨_, rfl⟩

theorem OptionalRules.exists_readRule {decl : OptionalDeclaration}
    (h : Configuration.validateRule decl = .ok ()) : ∃ rule, readRule decl = .ok rule := by
  unfold Configuration.validateRule at h
  obtain ⟨source, hsource, h⟩ := exists_of_bind_ok h
  obtain ⟨target, htarget, _⟩ := exists_of_bind_ok h
  unfold readRule
  rw [hsource, htarget]
  exact ⟨_, rfl⟩

namespace Configuration

variable {c : Configuration}

/-- A validated configuration has rules for optional references and a plan. -/
theorem exists_plan (h : c.validate = .ok ()) :
    ∃ rules plan, OptionalRules.ofDeclarations c.optional = .ok rules ∧
      BuildPlan.ofConfiguration c = .ok plan := by
  unfold validate at h
  obtain ⟨_, _, h⟩ := exists_of_bind_ok h
  obtain ⟨_, hmodules, h⟩ := exists_of_bind_ok h
  obtain ⟨_, _, hoptional⟩ := exists_of_bind_ok h
  obtain ⟨specs, hspecs⟩ : ∃ specs, c.specs = .ok specs :=
    exists_mapM_ok fun m hm => ModuleDeclaration.exists_spec (forM_ok hmodules m hm) _
  obtain ⟨rules, hrules⟩ : ∃ rules, c.optional.mapM OptionalRules.readRule = .ok rules :=
    exists_mapM_ok fun decl hdecl => OptionalRules.exists_readRule (forM_ok hoptional decl hdecl)
  have hdeclarations : OptionalRules.ofDeclarations c.optional = .ok { rules } := by
    unfold OptionalRules.ofDeclarations
    rw [hrules]
    rfl
  unfold BuildPlan.ofConfiguration
  rw [hspecs, hdeclarations]
  exact ⟨_, _, rfl, rfl⟩

/-- The build of a validated configuration is that of a plan, for a platform or not. -/
theorem exists_builder (h : c.validate = .ok ()) (registry : Registry) (optional : OptionalRules)
    (merge : Bool) :
    ∃ builder : Builder, c.buildWith registry optional merge = builder.build registry := by
  obtain ⟨rules, plan, hrules, hplan⟩ := exists_plan h
  unfold buildWith
  rw [hrules, hplan]
  cases c.platform with
  | none => exact ⟨.plain _, rfl⟩
  | some settings => exact ⟨.platform (.new _ settings), rfl⟩

/-- Over a registry without owners, a validated configuration fails in no other way than over its
modules: their names, members, dependences and views, and the roles of a platform. -/
theorem failure_of_validate (c : Configuration) (registry : Registry) (optional : OptionalRules)
    (merge : Bool) (e : BuildError) (hvalid : c.validate = .ok ()) (hregistry : registry.Unowned)
    (hbuild : (c.buildWith registry optional merge).result = .error e) : BuildFailure e := by
  obtain ⟨builder, hbuilder⟩ := exists_builder hvalid registry optional merge
  rw [hbuilder] at hbuild
  exact (builder.ends_build hregistry).of_error hbuild

/-- Two modules that require each other. -/
def circle : Configuration where
  modules := [{ name := "a", requires := [{ name := "b" }] },
    { name := "b", requires := [{ name := "a" }] }]

/-- They build up to the load order. -/
theorem failure_of_circle :
    circle.validate = .ok () ∧
      (circle.buildWith {} {} true).result = .error (.dependencyCycle ["a", "b", "a"]) ∧
      BuildFailure (.dependencyCycle ["a", "b", "a"]) := by
  have hvalid : circle.validate = .ok () := by decide +kernel
  have hbuild : (circle.buildWith {} {} true).result =
      .error (.dependencyCycle ["a", "b", "a"]) := by decide +kernel
  refine ⟨hvalid, hbuild, ?_⟩
  exact failure_of_validate circle {} {} true _ hvalid Registry.pristine_empty.unowned hbuild

end Configuration

end ModuleGraph

import ModuleGraph.Registry.Basic
import Std.Data.TreeMap.Basic

/-!
# Exporters

A module may be handed on by another module, its exporter; whoever needs the module then depends
on the exporter instead. Privileged modules are exempt, and no module is sent to itself. The boot
module has its optional dependences dropped.
-/

namespace ModuleGraph

/-- Which modules are reached through which others. -/
structure ExporterPolicy where
  /-- The exporter of each module that has one. -/
  exporters : Std.TreeMap ModuleId ModuleId := {}
  /-- The modules that depend on others directly. -/
  privileged : Std.TreeSet ModuleId := {}
  /-- The module whose optional dependences are dropped. -/
  boot : Option ModuleId := none
deriving Inhabited

namespace ExporterPolicy

/-- The module that a requester depends on to reach a target. -/
def exporter (policy : ExporterPolicy) (target requester : ModuleId) : ModuleId :=
  if policy.privileged.contains requester then target
  else
    match policy.exporters[target]? with
    | some exporter => if exporter = requester then target else exporter
    | none => target

/-- Whether the optional dependences of a requester are dropped. -/
def dropsOptional (policy : ExporterPolicy) (requester : ModuleId) : Bool :=
  policy.boot == some requester

end ExporterPolicy

end ModuleGraph

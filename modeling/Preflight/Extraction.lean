import Preflight.Parameter
import Preflight.Tag

/-!
# Extraction

The parameters and workspace tags of some modules (`extract`). All parameters are resolved before
the tags, so that tags can refer to their values. Whatever has errors is left out of the result, and
its diagnostics stay.
-/

namespace Preflight

/-- The result of an extraction. -/
structure Output where
  /-- The parameters without errors. -/
  parameters : List Parameter
  /-- The tag blocks that can be used. -/
  tagBlocks : TagBlocks
  /-- The diagnostics of all parameters, then of all tag blocks. -/
  diagnostics : Diagnostics

namespace Output

/-- The known tags. -/
def tags (o : Output) : Entries String := o.tagBlocks.validTags

/-- The keys of the unknown tags. -/
def unknownTags (o : Output) : List String := o.tagBlocks.unknowns

/-- Whether anything went wrong. -/
def hasErrors (o : Output) : Bool := o.diagnostics.hasErrors

end Output

/-- Resolves the parameters of all modules; the modules come back with the values written into their
scopes. -/
def resolveParameters (input : Input) (modules : List Module) : List Parameter × List Module :=
  let resolved := modules.map (Module.resolveParameters input)
  (resolved.flatMap Prod.fst, resolved.map Prod.snd)

/-- Resolves the tag blocks of all modules. -/
def resolveTags (modules : List Module) : TagBlocks := modules.flatMap Module.resolveTags

/-- Resolves everything; the modules come back with the values of their parameters. -/
def extract (input : Input) (modules : List Module) : Output × List Module :=
  let (parameters, modules) := resolveParameters input modules
  let blocks := resolveTags modules
  (⟨parameters.filter fun p => !p.hasErrors, blocks.filter fun b => !b.errored,
    parameters.flatMap Parameter.diagnostics ++ blocks.flatMap TagBlock.diagnostics⟩, modules)

end Preflight

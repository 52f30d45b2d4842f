/-
Stencil/Template.lean

Compiling: a source is cut into segments by the delimiters of a configuration, each
directive is classified, and the directives are nested.  The first fault in this
order counts: a wrong configuration, then the delimiters, then the directives from
first to last, then the nesting.  A template takes the settings it needs when it is
rendered along with it.
-/
import Stencil.Directive.Classify
import Stencil.Node.Nesting
import Stencil.Segment

namespace Stencil

/-! ### Configurations -/

/-- The settings of an engine. -/
structure Configuration where
  /-- Opens a directive. -/
  leftDelimiter : String := "<%"
  /-- Closes a directive. -/
  rightDelimiter : String := "%>"
  /-- Whether the default output form escapes. -/
  escapeDefault : Bool := true
  /-- What the protocol of an address is replaced with, colon included. -/
  pageProtocol : String := "http:"
deriving DecidableEq, Repr, Inhabited

/-- The delimiters, which may not be empty. -/
def Configuration.delimiters (c : Configuration) : Except CompileFault Delimiters :=
  if c.leftDelimiter.isEmpty || c.rightDelimiter.isEmpty then .error .emptyDelimiter
  else .ok ⟨c.leftDelimiter.toList, c.rightDelimiter.toList⟩

/-! ### Compiling -/

/-- A compiled template, with the settings that rendering needs. -/
structure Template where
  nodes : List Node
  escapeDefault : Bool
  pageProtocol : String

/-- The piece of a segment. -/
def Item.ofSegment : Segment → Except CompileFault Item
  | .literal part => .ok (.text part.chars)
  | .directive body => do return .directive (← classify body) body.span

/-- The tree of a row of segments. -/
def nodesOfSegments (parts : List Segment) : Except CompileFault (List Node) := do
  nest (← parts.mapM Item.ofSegment)

/-- Compiles a source. -/
def Template.compile (source : String) (configuration : Configuration) :
    Except CompileFault Template := do
  let delimiters ← configuration.delimiters
  let nodes ← nodesOfSegments (← segments delimiters source.toList)
  return ⟨nodes, configuration.escapeDefault, configuration.pageProtocol⟩

/-- The names of the sub-templates that a template defines, in document order. -/
def Template.subtemplateNames (t : Template) : List String := definedNamesOf t.nodes

end Stencil

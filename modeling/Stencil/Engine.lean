/-
Stencil/Engine.lean

Engines: a configuration, a place to look up named sources, and the templates that
were compiled from them.  A template is kept under its name for good; a text that
is no name of a source is compiled anew every time.
-/
import Stencil.Order
import Stencil.Sources
import Stencil.Template

namespace Stencil

/-- A template as an engine hands it out.  The number tells it apart from every other one, also from
one that was compiled from the same text. -/
structure Issued where
  number : Nat
  template : Template

/-- An engine. -/
structure Engine where
  configuration : Configuration := {}
  /-- The templates compiled from named sources. -/
  cache : Bindings Issued := []
  sources : Sources := .nothing

/-- What comes of a request for a template. -/
structure Reply where
  engine : Engine
  /-- The sources were asked for the name. -/
  asked : Bool
  result : Except CompileFault Issued

namespace Engine

/-- Another engine with the same configuration and sources, which has kept nothing yet. -/
def copy (e : Engine) : Engine := { e with cache := [] }

/-- The names under which templates are kept, in order. -/
def cachedNames (e : Engine) : List String := sortBy (fun a b => decide (a ≤ b)) (e.cache.map (·.1))

/-- A template was kept under the name. -/
def isCached (e : Engine) (name : String) : Bool := (e.cache.lookup name).isSome

/-- Compiles a text, whatever names there are; `number` is the one of a template that is made. -/
def compileText (number : Nat) (text : String) (e : Engine) : Except CompileFault Issued := do
  return ⟨number, ← Template.compile text e.configuration⟩

/-- The template of a named source, or of the text itself if `resolve?` knows no source of that name.
Only the first kind is kept, and once kept it stays. -/
def compile (resolve? : String → Option String) (number : Nat) (source : String) (e : Engine) : Reply :=
  match e.cache.lookup source with
  | some issued => ⟨e, false, .ok issued⟩
  | none =>
    match resolve? source with
    | none => ⟨e, true, e.compileText number source⟩
    | some text =>
      match e.compileText number text with
      | .ok issued => ⟨{ e with cache := e.cache.put source issued }, true, .ok issued⟩
      | .error fault => ⟨e, true, .error fault⟩

end Engine

end Stencil

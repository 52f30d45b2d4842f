/-
Stencil/Engine/Session.lean

Histories of engines: a session holds some engines and the templates that were
handed out, and takes one step after the other.
-/
import Stencil.Engine
import Stencil.Node.Equality
import Stencil.Render

namespace Stencil

/-- What has happened so far. -/
structure Session where
  engines : List Engine := []
  /-- The templates that were asked for, in order; one that an engine has kept can come again. -/
  kept : List Issued := []
  /-- The sources of the host. -/
  hosted : Bindings String := []
  /-- How often the host was asked for a source. -/
  calls : Nat := 0
  /-- How many templates may have been made. -/
  issued : Nat := 0

/-- A change of some settings; what is not given stays. -/
structure ConfigurationChange where
  delimiters : Option (String × String) := none
  escapeDefault : Option Bool := none
  pageProtocol : Option String := none

/-- The configuration after a change. -/
def ConfigurationChange.apply (change : ConfigurationChange) (c : Configuration) : Configuration :=
  let (left, right) := change.delimiters.getD (c.leftDelimiter, c.rightDelimiter)
  { leftDelimiter := left
    rightDelimiter := right
    escapeDefault := change.escapeDefault.getD c.escapeDefault
    pageProtocol := change.pageProtocol.getD c.pageProtocol }

/-- The engine that a step is about: one of the session, or the one that all sessions share, which has
the plain configuration and knows no sources. -/
inductive Chosen where
  | own (index : Nat)
  | common
deriving DecidableEq, Repr

/-- A step of a session. -/
inductive Step where
  /-- A new engine.  The texts are added to those of the host. -/
  | create (sources : Sources) (added : Bindings String)
  /-- A copy of an engine. -/
  | copy (engine : Nat)
  /-- The engine goes and comes back last, with another configuration. -/
  | reconfigure (engine : Nat) (configuration : Configuration)
  | configure (engine : Nat) (change : ConfigurationChange)
  | configuration (engine : Nat)
  /-- A source of the host, or that it is no longer one. -/
  | setSource (name : String) (text : Option String)
  /-- The template of a named source or of a text. -/
  | compile (engine : Chosen) (source : String)
  /-- The template of a text. -/
  | compileText (engine : Nat) (text : String)
  | render (engine : Chosen) (source : String) (context : Value) (key : String)
  | renderKept (template : Nat) (context : Value) (key : String)
  | isCached (engine : Nat) (name : String)

/-- What a step answers. -/
inductive Answer where
  | engine (index : Nat)
  | configuration (configuration : Configuration)
  | done
  /-- A template was kept: its position, the first earlier one that is the same, and the first earlier
  one that is equal. -/
  | template (index : Nat) (sameAs equalTo : Option Nat) (names : List String)
  | output (text : String)
  | cached (yes : Bool)
  | fault (fault : Fault)
  /-- There is no such engine or template. -/
  | missing

namespace Session

/-- The engine that is chosen. -/
def engine? (s : Session) : Chosen → Option Engine
  | .own index => s.engines[index]?
  | .common => some {}

/-- The chosen engine changed; the common one never changes. -/
def setEngine (s : Session) (chosen : Chosen) (e : Engine) : Session :=
  match chosen with
  | .own index => { s with engines := s.engines.set index e }
  | .common => s

/-- The session with another engine, which comes last. -/
def addEngine (s : Session) (e : Engine) : Session × Answer :=
  ({ s with engines := s.engines ++ [e] }, .engine s.engines.length)

/-- Asks an engine for the template of a source. -/
def request (s : Session) (chosen : Chosen) (e : Engine) (source : String) :
    Session × Except CompileFault Issued :=
  let reply := e.compile (e.sources.resolve? s.hosted) s.issued source
  let hostAsked := match e.sources with
    | .host => reply.asked
    | _ => false
  let s := s.setEngine chosen reply.engine
  ({ s with issued := s.issued + 1, calls := if hostAsked then s.calls + 1 else s.calls },
    reply.result)

/-- Keeps a template, or tells why there is none. -/
def keep (s : Session) (result : Except CompileFault Issued) : Session × Answer :=
  match result with
  | .ok issued =>
    let sameAs := s.kept.findIdx? (·.number = issued.number)
    let equalTo := s.kept.findIdx? (·.template = issued.template)
    ({ s with kept := s.kept ++ [issued] },
      .template s.kept.length sameAs equalTo issued.template.subtemplateNames)
  | .error fault => (s, .fault (.compile fault))

/-- The answer of a render. -/
def answerOf (host : Host) (result : Except CompileFault Issued) (context : Value) (key : String) :
    Answer :=
  match result with
  | .error fault => .fault (.compile fault)
  | .ok issued =>
    match issued.template.render host context key with
    | .ok text => .output text
    | .error fault => .fault (.render fault)

/-- Takes a step that is about an engine of the session. -/
def withEngine (s : Session) (index : Nat) (f : Engine → Session × Answer) : Session × Answer :=
  match s.engines[index]? with
  | some e => f e
  | none => (s, .missing)

/-- Takes a step. -/
def step (host : Host) (s : Session) : Step → Session × Answer
  | .create sources added =>
    let hosted := added.foldl (fun hosted (name, text) => hosted.put name text) s.hosted
    { s with hosted }.addEngine { sources }
  | .copy index => s.withEngine index fun e => s.addEngine e.copy
  | .reconfigure index configuration => s.withEngine index fun e =>
    { s with engines := s.engines.eraseIdx index }.addEngine { e with configuration }
  | .configure index change => s.withEngine index fun e =>
    let configuration := change.apply e.configuration
    (s.setEngine (.own index) { e with configuration }, .configuration configuration)
  | .configuration index => s.withEngine index fun e => (s, .configuration e.configuration)
  | .setSource name text =>
    let hosted := match text with
      | some text => s.hosted.put name text
      | none => s.hosted.filter (·.1 ≠ name)
    ({ s with hosted }, .done)
  | .compile chosen source =>
    match s.engine? chosen with
    | some e =>
      let (s, result) := s.request chosen e source
      s.keep result
    | none => (s, .missing)
  | .compileText index text => s.withEngine index fun e =>
    { s with issued := s.issued + 1 }.keep (e.compileText s.issued text)
  | .render chosen source context key =>
    match s.engine? chosen with
    | some e =>
      let (s, result) := s.request chosen e source
      (s, answerOf host result context key)
    | none => (s, .missing)
  | .renderKept index context key =>
    match s.kept[index]? with
    | some issued => (s, answerOf host (.ok issued) context key)
    | none => (s, .missing)
  | .isCached index name => s.withEngine index fun e => (s, .cached (e.isCached name))

/-- The session after some steps. -/
def run (host : Host) (s : Session) (steps : List Step) : Session :=
  steps.foldl (fun s step => (s.step host step).1) s

end Session

end Stencil

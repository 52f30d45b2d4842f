/-
Stencil/Proofs/EngineHistory.lean

What the engines of a session keep over its whole history.  An engine is told by its
position among the engines, which changes when an engine goes and comes back last
(`Session.follow`).  What one step makes of one engine is one of four things
(`Session.Becomes`).  So its cache changes only by what the request of the step makes it
keep (`Session.Becomes.cache`), and only grows at its end (`Session.cache_run`): what it
has kept comes back for good.

The configuration of an engine changes only where a step names the engine and says how
(`Step.Configures`), and what is in its cache does not change with it.

The numbers of templates tell them apart: a template that is made takes a number that no
template has which is held anywhere (`Session.Numbered`).

The main result, `session_caches`, holds for every history that begins with no engines.
-/
import Stencil.Engine.Session

namespace Stencil

/-! ### Requests to one engine -/

namespace Engine

/-- A request for the source makes the engine keep the template: nothing is kept under the name, the
sources know a text of that name, and it compiles with the configuration of the engine. -/
def Stores (e : Engine) (resolve? : String → Option String) (source : String) (t : Template) : Prop :=
  e.cache.lookup source = none ∧
    ∃ text, resolve? source = some text ∧ Template.compile text e.configuration = .ok t

variable {e : Engine} {source : String}

theorem compileText_of_ok (number : Nat) {text : String} {t : Template}
    (h : Template.compile text e.configuration = .ok t) :
    e.compileText number text = .ok ⟨number, t⟩ := by
  rw [compileText, h]
  rfl

theorem compileText_of_error (number : Nat) {text : String} {fault : CompileFault}
    (h : Template.compile text e.configuration = .error fault) :
    e.compileText number text = .error fault := by
  rw [compileText, h]
  rfl

/-- A template that is made has the number that was given for it. -/
theorem number_of_compileText {number : Nat} {text : String} {issued : Issued}
    (h : e.compileText number text = .ok issued) : issued.number = number := by
  cases htext : Template.compile text e.configuration with
  | error fault =>
    rw [compileText_of_error number htext] at h
    cases h
  | ok t =>
    rw [compileText_of_ok number htext] at h
    cases h
    rfl

/-- What is kept comes back, and the sources are not asked. -/
theorem compile_of_cached (resolve? : String → Option String) (number : Nat) {issued : Issued}
    (h : e.cache.lookup source = some issued) :
    e.compile resolve? number source = ⟨e, false, .ok issued⟩ := by
  rw [compile, h]

theorem asked_compile (e : Engine) (resolve? : String → Option String) (number : Nat)
    (source : String) : (e.compile resolve? number source).asked = !e.isCached source := by
  rw [compile, isCached]
  cases e.cache.lookup source with
  | some issued => rfl
  | none =>
    dsimp only
    split
    · rfl
    · split <;> rfl

/-- A request makes the engine keep a template, or leaves it as it is. -/
theorem compile_cases (e : Engine) (resolve? : String → Option String) (number : Nat)
    (source : String) :
    (∃ t, e.Stores resolve? source t ∧ e.compile resolve? number source =
      ⟨{ e with cache := e.cache ++ [(source, ⟨number, t⟩)] }, true, .ok ⟨number, t⟩⟩) ∨
    (∀ t, ¬ e.Stores resolve? source t) ∧ (e.compile resolve? number source).engine = e ∧
      ∀ issued, (e.compile resolve? number source).result = .ok issued →
        e.cache.lookup source = some issued ∨ issued.number = number := by
  cases hcache : e.cache.lookup source with
  -- what is cached is given again
  | some issued =>
    rw [compile_of_cached resolve? number hcache]
    refine .inr ⟨fun t hstores => ?_, rfl, fun other hother => .inl ?_⟩
    · rw [hstores.1] at hcache
      cases hcache
    · exact congrArg some (Except.ok.inj hother)
  | none =>
    cases htext : resolve? source with
    | none =>
      -- the name stands for itself, and a text is never stored
      have hreply : e.compile resolve? number source = ⟨e, true, e.compileText number source⟩ := by
        simp only [compile, hcache, htext]
      rw [hreply]
      refine .inr ⟨?_, rfl, fun issued hissued => .inr (number_of_compileText hissued)⟩
      rintro t ⟨-, text, hknown, -⟩
      rw [htext] at hknown
      cases hknown
    | some text =>
      cases hcompile : Template.compile text e.configuration with
      | error fault =>
        have hreply : e.compile resolve? number source = ⟨e, true, .error fault⟩ := by
          simp only [compile, hcache, htext, compileText_of_error number hcompile]
        rw [hreply]
        refine .inr ⟨?_, rfl, nofun⟩
        rintro t ⟨-, other, hknown, hother⟩
        rw [htext] at hknown
        cases hknown
        rw [hcompile] at hother
        cases hother
      | ok t =>
        refine .inl ⟨t, ⟨hcache, text, htext, hcompile⟩, ?_⟩
        simp only [compile, hcache, htext, compileText_of_ok number hcompile,
          Bindings.put_of_lookup_none _ hcache]

end Engine

/-! ### Steps of a session -/

/-- The host is asked. -/
def Sources.isHost : Sources → Bool
  | .host => true
  | _ => false

/-- The engine and the source that a step requests a template of. -/
def Step.request? : Step → Option (Chosen × String)
  | .compile chosen source | .render chosen source _ _ => some (chosen, source)
  | _ => none

/-- The engine that a step gives another configuration. -/
def Step.configured? : Step → Option Nat
  | .configure j _ | .reconfigure j _ => some j
  | _ => none

/-- The second configuration has the settings that the change gives, and those of the first one where it
gives none. -/
structure ConfigurationChange.Yields (change : ConfigurationChange) (c c' : Configuration) : Prop where
  delimiters : (c'.leftDelimiter, c'.rightDelimiter) =
    change.delimiters.getD (c.leftDelimiter, c.rightDelimiter)
  escapeDefault : c'.escapeDefault = change.escapeDefault.getD c.escapeDefault
  pageProtocol : c'.pageProtocol = change.pageProtocol.getD c.pageProtocol

theorem ConfigurationChange.yields_apply (change : ConfigurationChange) (c : Configuration) :
    change.Yields c (change.apply c) :=
  ⟨rfl, rfl, rfl⟩

/-- What a step makes of the configuration of the engine at position `i`. -/
def Step.Configures (i : Nat) (c c' : Configuration) : Step → Prop
  | .configure j change => if i = j then change.Yields c c' else c' = c
  | .reconfigure j given => if i = j then c' = given else c' = c
  | _ => c' = c

theorem Step.configured?_of_request {step : Step} {request : Chosen × String}
    (h : step.request? = some request) : step.configured? = none := by
  cases step with
  | configure | reconfigure => cases h
  | _ => rfl

theorem Step.configures_self {step : Step} {i : Nat} (h : step.configured? ≠ some i)
    (c : Configuration) : step.Configures i c c := by
  cases step with
  | configure j | reconfigure j =>
    have hij : i ≠ j := by
      rintro rfl
      exact h rfl
    exact (if_neg hij).mpr rfl
  | _ => rfl

namespace Session

variable {s : Session} {step : Step} {chosen : Chosen} {source : String} {e : Engine} {i : Nat}

/-- What the request of an engine comes to. -/
def reply (s : Session) (e : Engine) (source : String) : Reply :=
  e.compile (e.sources.resolve? s.hosted) s.issued source

theorem reply_cases (s : Session) (e : Engine) (source : String) :
    (∃ t, e.Stores (e.sources.resolve? s.hosted) source t ∧ s.reply e source =
      ⟨{ e with cache := e.cache ++ [(source, ⟨s.issued, t⟩)] }, true, .ok ⟨s.issued, t⟩⟩) ∨
    (∀ t, ¬ e.Stores (e.sources.resolve? s.hosted) source t) ∧ (s.reply e source).engine = e ∧
      ∀ issued, (s.reply e source).result = .ok issued →
        e.cache.lookup source = some issued ∨ issued.number = s.issued :=
  e.compile_cases _ _ _

theorem request_eq (s : Session) (chosen : Chosen) (e : Engine) (source : String) :
    s.request chosen e source =
      ({ s.setEngine chosen (s.reply e source).engine with
          calls := if e.sources.isHost && (s.reply e source).asked then s.calls + 1 else s.calls
          issued := s.issued + 1 },
        (s.reply e source).result) := by
  obtain ⟨configuration, cache, sources⟩ := e
  cases chosen <;> cases sources <;> rfl

theorem kept_request (s : Session) (chosen : Chosen) (e : Engine) (source : String) :
    (s.request chosen e source).1.kept = s.kept := by
  cases chosen <;> rfl

/-- The position of an engine after a step. -/
def follow (s : Session) (step : Step) (i : Nat) : Nat :=
  match step with
  | .reconfigure j _ =>
    if j < s.engines.length then
      if i < j then i else if i = j then s.engines.length - 1 else i - 1
    else i
  | _ => i

/-- The step gives no engine of the session another configuration. -/
def Unconfigured (s : Session) (step : Step) : Prop :=
  ∀ j ∈ step.configured?, s.engines[j]? = none

/-- What a step does to a session, its sources and its answer apart. -/
inductive Moves (s : Session) : Step → Session → Prop
  | stays {step : Step} (hosted : Bindings String) :
      step.request? = none → s.Unconfigured step → Moves s step { s with hosted }
  /-- An engine comes that has kept nothing. -/
  | adds {step : Step} {e : Engine} (hosted : Bindings String) :
      step.request? = none → s.Unconfigured step → e.cache = [] →
      Moves s step { s with hosted, engines := s.engines ++ [e] }
  | renews {j : Nat} {e : Engine} (configuration : Configuration) :
      s.engines[j]? = some e →
      Moves s (.reconfigure j configuration)
        { s with engines := s.engines.eraseIdx j ++ [{ e with configuration }] }
  | configures {j : Nat} {e : Engine} (change : ConfigurationChange) :
      s.engines[j]? = some e →
      Moves s (.configure j change)
        { s with engines := s.engines.set j { e with configuration := change.apply e.configuration } }
  /-- A text is compiled, and the template is handed out if there is one. -/
  | compiles {j : Nat} {text : String} (made : Option Issued) :
      (∀ issued ∈ made, issued.number = s.issued) →
      Moves s (.compileText j text)
        { s with issued := s.issued + 1, kept := s.kept ++ made.toList }
  | missing {step : Step} {chosen : Chosen} {source : String} :
      step.request? = some (chosen, source) → s.engine? chosen = none → Moves s step s
  /-- The template of a request is handed out, or only rendered, or there is none. -/
  | requests {step : Step} {chosen : Chosen} {source : String} {e : Engine} (given : Option Issued) :
      step.request? = some (chosen, source) → s.engine? chosen = some e →
      (∀ issued ∈ given, (s.reply e source).result = .ok issued) →
      Moves s step { (s.request chosen e source).1 with kept := s.kept ++ given.toList }

theorem withEngine_cases (s : Session) (i : Nat) (f : Engine → Session × Answer) :
    s.withEngine i f = (s, .missing) ∧ s.engines[i]? = none ∨
    ∃ e, s.engines[i]? = some e ∧ s.withEngine i f = f e := by
  rw [withEngine]
  cases he : s.engines[i]? with
  | none => exact .inl ⟨rfl, rfl⟩
  | some e => exact .inr ⟨e, rfl, rfl⟩

theorem eq_ok_of_mem_toOption {ε α : Type} {result : Except ε α} {a : α} (h : a ∈ result.toOption) :
    result = .ok a := by
  cases result with
  | ok b => exact congrArg Except.ok (Option.some.inj h)
  | error fault => cases h

/-- What is kept of a result is handed out. -/
theorem keep_eq (s : Session) (result : Except CompileFault Issued) :
    (s.keep result).1 = { s with kept := s.kept ++ result.toOption.toList } := by
  cases result with
  | ok issued => rfl
  | error fault => exact congrArg (fun kept => { s with kept }) (List.append_nil s.kept).symm

/-- Every step does one of these. -/
theorem moves_step (host : Host) (s : Session) (step : Step) :
    s.Moves step (s.step host step).1 := by
  cases step with
  | create sources added => exact .adds _ rfl nofun rfl
  | copy j =>
    rw [Session.step]
    -- where the session has no such engine, the step is refused
    rcases s.withEngine_cases j fun e => s.addEngine e.copy with ⟨h, -⟩ | ⟨e, -, h⟩
    · rw [h]
      exact .stays s.hosted rfl nofun
    · rw [h]
      exact .adds s.hosted rfl nofun rfl
  | reconfigure j configuration =>
    rw [Session.step]
    rcases s.withEngine_cases j fun e =>
      { s with engines := s.engines.eraseIdx j }.addEngine { e with configuration }
      with ⟨h, hj⟩ | ⟨e, hj, h⟩
    · rw [h]
      exact .stays s.hosted rfl fun _ hk => Option.some.inj hk ▸ hj
    · rw [h]
      exact .renews configuration hj
  | configure j change =>
    rw [Session.step]
    rcases s.withEngine_cases j fun e =>
      (s.setEngine (.own j) { e with configuration := change.apply e.configuration },
        .configuration (change.apply e.configuration))
      with ⟨h, hj⟩ | ⟨e, hj, h⟩
    · rw [h]
      exact .stays s.hosted rfl fun _ hk => Option.some.inj hk ▸ hj
    · rw [h]
      exact .configures change hj
  -- what only looks at the session leaves it as it is
  | configuration j | isCached j =>
    rw [Session.step, withEngine]
    split <;> exact .stays s.hosted rfl nofun
  | setSource name text => exact .stays _ rfl nofun
  | renderKept j context key =>
    rw [Session.step]
    split <;> exact .stays s.hosted rfl nofun
  | compileText j text =>
    rw [Session.step, withEngine]
    split
    · rw [keep_eq]
      exact .compiles _ fun issued h => Engine.number_of_compileText (eq_ok_of_mem_toOption h)
    · exact .stays s.hosted rfl nofun
  -- a request goes to an engine of the session or to the common one, which is always there
  | compile chosen source =>
    cases he : s.engine? chosen with
    | none =>
      simp only [Session.step, he]
      exact .missing rfl he
    | some e =>
      simp only [Session.step, he]
      rw [keep_eq, kept_request]
      exact .requests _ rfl he fun issued h => eq_ok_of_mem_toOption h
  | render chosen source context key =>
    cases he : s.engine? chosen with
    | none =>
      simp only [Session.step, he]
      exact .missing rfl he
    | some e =>
      simp only [Session.step, he]
      have hmoves : s.Moves (.render chosen source context key)
          { (s.request chosen e source).1 with kept := s.kept ++ [] } := .requests none rfl he nofun
      rwa [List.append_nil, ← kept_request s chosen e source] at hmoves

/-! ### One engine in a step -/

/-- The step makes the engine at a position keep the template under the name of the source. -/
def Stores (s : Session) (i : Nat) (e : Engine) (step : Step) (source : String) (t : Template) : Prop :=
  step.request? = some (.own i, source) ∧ e.Stores (e.sources.resolve? s.hosted) source t

theorem unconfigured_of_request {request : Chosen × String} (h : step.request? = some request) :
    s.Unconfigured step := by
  rw [Unconfigured, Step.configured?_of_request h]
  nofun

theorem Unconfigured.ne (h : s.Unconfigured step) (he : s.engines[i]? = some e) :
    step.configured? ≠ some i := by
  intro hi
  cases he.symm.trans (h i hi)

/-- Where no engine gets another configuration, all keep their positions. -/
theorem Unconfigured.follow (h : s.Unconfigured step) (i : Nat) : s.follow step i = i := by
  cases step with
  | reconfigure j given => exact if_neg (Nat.not_lt.mpr (List.getElem?_eq_none_iff.mp (h j rfl)))
  | _ => rfl

/-- An engine that goes and comes back last is last, and the others stay in their order. -/
theorem getElem?_renewed {engines : List Engine} {j : Nat} {other renewed : Engine}
    (hj : engines[j]? = some other) (hi : engines[i]? = some e) :
    (engines.eraseIdx j ++ [renewed])[if i < j then i
      else if i = j then engines.length - 1 else i - 1]? = some (if i = j then renewed else e) := by
  have hjlt : j < engines.length := (List.getElem?_eq_some_iff.mp hj).1
  have hilt : i < engines.length := (List.getElem?_eq_some_iff.mp hi).1
  have hlength : (engines.eraseIdx j).length = engines.length - 1 := List.length_eraseIdx_of_lt hjlt
  by_cases hij : i = j
  · subst hij
    rw [if_neg (Nat.lt_irrefl i), if_pos rfl, if_pos rfl, ← hlength]
    exact List.getElem?_concat_length
  · have hsame : (if i = j then renewed else e) = e := if_neg hij
    rw [hsame]
    by_cases hlt : i < j
    · rw [if_pos hlt, List.getElem?_append_left (by omega), List.getElem?_eraseIdx, if_pos hlt]
      exact hi
    · rw [if_neg hlt, if_neg hij, List.getElem?_append_left (by omega), List.getElem?_eraseIdx,
        if_neg (by omega), Nat.sub_add_cancel (by omega)]
      exact hi

/-- Another engine that changes does not matter. -/
theorem getElem?_set_engine {engines : List Engine} {j : Nat} {other changed : Engine}
    (hj : engines[j]? = some other) (hi : engines[i]? = some e) :
    (engines.set j changed)[i]? = some (if i = j then changed else e) := by
  by_cases hij : i = j
  · subst hij
    rw [if_pos rfl]
    exact List.getElem?_set_self (List.getElem?_eq_some_iff.mp hi).1
  · rw [if_neg hij, List.getElem?_set_ne (Ne.symm hij), hi]

/-- What a step makes of the engine at position `i`. -/
inductive Becomes (s : Session) (i : Nat) (e : Engine) : Step → Engine → Prop
  /-- Nothing is requested of it, and it keeps its configuration. -/
  | unchanged {step : Step} :
      (∀ source, step.request? ≠ some (.own i, source)) → step.configured? ≠ some i →
      Becomes s i e step e
  | renewed (configuration : Configuration) :
      Becomes s i e (.reconfigure i configuration) { e with configuration }
  | configured (change : ConfigurationChange) :
      Becomes s i e (.configure i change) { e with configuration := change.apply e.configuration }
  | asked {step : Step} (source : String) :
      step.request? = some (.own i, source) → Becomes s i e step (s.reply e source).engine

/-- **One step.**  Every engine of the session is found at its new position, and has become one of these. -/
theorem Moves.engine {s' : Session} (h : s.Moves step s') (he : s.engines[i]? = some e) :
    ∃ e', s'.engines[s.follow step i]? = some e' ∧ s.Becomes i e step e' := by
  have hi : i < s.engines.length := (List.getElem?_eq_some_iff.mp he).1
  have hunasked (hrequest : step.request? = none) (source : String) :
      step.request? ≠ some (.own i, source) := by
    rw [hrequest]
    nofun
  cases h with
  | stays hosted hrequest hfree =>
    rw [hfree.follow]
    exact ⟨e, he, .unchanged (hunasked hrequest) (hfree.ne he)⟩
  | adds hosted hrequest hfree =>
    rw [hfree.follow]
    refine ⟨e, ?_, .unchanged (hunasked hrequest) (hfree.ne he)⟩
    exact (List.getElem?_append_left hi).trans he
  -- the engine is put behind the others, with what was given
  | @renews j other configuration hj =>
    rw [follow, if_pos (List.getElem?_eq_some_iff.mp hj).1]
    refine ⟨_, getElem?_renewed hj he, ?_⟩
    split
    · next hij =>
      subst hij
      cases he.symm.trans hj
      exact .renewed configuration
    · next hij => exact .unchanged nofun fun h => hij (Option.some.inj h).symm
  | @configures j other change hj =>
    have hfollow : s.follow (.configure j change) i = i := rfl
    rw [hfollow]
    refine ⟨_, getElem?_set_engine hj he, ?_⟩
    split
    · next hij =>
      subst hij
      cases he.symm.trans hj
      exact .configured change
    · next hij => exact .unchanged nofun fun h => hij (Option.some.inj h).symm
  | compiles => exact ⟨e, he, .unchanged nofun nofun⟩
  | missing hrequest hasked =>
    have hfree := unconfigured_of_request (s := s) hrequest
    rw [hfree.follow]
    refine ⟨e, he, .unchanged (fun source hsource => ?_) (hfree.ne he)⟩
    cases hrequest.symm.trans hsource
    cases hasked.symm.trans he
  | @requests _ chosen source other given hrequest hasked =>
    have hfree := unconfigured_of_request (s := s) hrequest
    rw [hfree.follow, request_eq]
    cases chosen with
    -- the common engine is none of the session
    | common =>
      refine ⟨e, he, .unchanged (fun source hsource => ?_) (hfree.ne he)⟩
      cases hrequest.symm.trans hsource
    | own j =>
      refine ⟨_, getElem?_set_engine hasked he, ?_⟩
      split
      · next hij =>
        subst hij
        cases he.symm.trans hasked
        exact .asked source hrequest
      · next hij =>
        refine .unchanged (fun source hsource => ?_) (hfree.ne he)
        cases hrequest.symm.trans hsource
        exact hij rfl

theorem engine_step (host : Host) (s : Session) (step : Step) {i : Nat} {e : Engine}
    (he : s.engines[i]? = some e) :
    ∃ e', (s.step host step).1.engines[s.follow step i]? = some e' ∧ s.Becomes i e step e' :=
  (s.moves_step host step).engine he

/-- The cache of an engine changes only by what the request of the step makes it keep. -/
theorem Becomes.cache {e' : Engine} (h : s.Becomes i e step e') :
    e'.sources = e.sources ∧
      ((∃ source t, s.Stores i e step source t ∧
          e'.cache = e.cache ++ [(source, ⟨s.issued, t⟩)]) ∨
        (∀ source t, ¬ s.Stores i e step source t) ∧ e'.cache = e.cache) := by
  cases h with
  | unchanged hunasked => exact ⟨rfl, .inr ⟨fun source t h => hunasked source h.1, rfl⟩⟩
  | renewed | configured =>
    refine ⟨rfl, .inr ⟨fun source t => ?_, rfl⟩⟩
    rintro ⟨hrequest, -⟩
    cases hrequest
  | asked source hrequest =>
    -- it stores what it made, or is left as it was
    rcases s.reply_cases e source with ⟨t, hstores, hreply⟩ | ⟨hstores, hengine, -⟩
    · rw [hreply]
      exact ⟨rfl, .inl ⟨source, t, ⟨hrequest, hstores⟩, rfl⟩⟩
    · rw [hengine]
      refine ⟨rfl, .inr ⟨fun other t => ?_, rfl⟩⟩
      rintro ⟨hother, hstored⟩
      cases hrequest.symm.trans hother
      exact hstores t hstored

theorem configuration_reply (s : Session) (e : Engine) (source : String) :
    (s.reply e source).engine.configuration = e.configuration := by
  rcases s.reply_cases e source with ⟨t, -, hreply⟩ | ⟨-, hengine, -⟩
  · rw [hreply]
  · rw [hengine]

/-- The configuration of an engine changes only as the step says. -/
theorem Becomes.configuration {e' : Engine} (h : s.Becomes i e step e') :
    step.Configures i e.configuration e'.configuration := by
  cases h with
  | unchanged _ hfree => exact Step.configures_self hfree _
  | renewed configuration => exact (if_pos rfl).mpr rfl
  | configured change => exact (if_pos rfl).mpr (change.yields_apply _)
  | asked source hrequest =>
    rw [configuration_reply]
    refine Step.configures_self ?_ _
    rw [Step.configured?_of_request hrequest]
    nofun

/-! ### Runs -/

/-- The position of an engine after some steps. -/
def followAll (host : Host) (s : Session) (steps : List Step) (i : Nat) : Nat :=
  match steps with
  | [] => i
  | step :: steps => followAll host (s.step host step).1 steps (s.follow step i)

/-- **Many steps.**  What an engine has kept stays kept, in its place; the cache grows at its end. -/
theorem cache_run (host : Host) (s : Session) (steps : List Step) {i : Nat} {e : Engine}
    (he : s.engines[i]? = some e) :
    ∃ e', (s.run host steps).engines[s.followAll host steps i]? = some e' ∧
      e'.sources = e.sources ∧ e.cache <+: e'.cache := by
  induction steps generalizing s i e with
  | nil => exact ⟨e, he, rfl, List.prefix_rfl⟩
  | cons step steps ih =>
    obtain ⟨next, hnext, hbecomes⟩ := s.engine_step host step he
    obtain ⟨hsources, hcache⟩ := hbecomes.cache
    obtain ⟨last, hlast, hsources', hcache'⟩ := ih _ hnext
    have hgrows : e.cache <+: next.cache := by
      rcases hcache with ⟨source, t, -, h⟩ | ⟨-, h⟩
      · simp only [h, List.prefix_append]
      · simp only [h, List.prefix_rfl]
    exact ⟨last, hlast, hsources'.trans hsources, hgrows.trans hcache'⟩

theorem lookup_of_prefix {α : Type} {bindings longer : Bindings α} {name : String} {a : α}
    (h : bindings.lookup name = some a) (hgrown : bindings <+: longer) :
    longer.lookup name = some a := by
  obtain ⟨later, rfl⟩ := hgrown
  rw [List.lookup_append, h, Option.some_or]

/-- A request for what the engine has kept gives it back, and changes nothing but the count of
templates. -/
theorem request_of_cached {issued : Issued} (he : s.engines[i]? = some e)
    (hcached : e.cache.lookup source = some issued) :
    s.request (.own i) e source = ({ s with issued := s.issued + 1 }, .ok issued) := by
  have hreply : s.reply e source = ⟨e, false, .ok issued⟩ := Engine.compile_of_cached _ _ hcached
  have hengines : s.engines.set i e = s.engines := by
    obtain ⟨hi, rfl⟩ := List.getElem?_eq_some_iff.mp he
    exact List.set_getElem_self hi
  rw [request_eq, hreply, Bool.and_false, setEngine, hengines]
  rfl

/-! ### Requests that miss -/

/-- The sources of the engine of which a step requests a template that is not kept there. -/
def miss? (s : Session) (step : Step) : Option Sources := do
  let (chosen, source) ← step.request?
  let e ← s.engine? chosen
  if e.isCached source then none else some e.sources

/-- The sources of the engines of which templates were requested that were not kept there, in order. -/
def misses (host : Host) (s : Session) : List Step → List Sources
  | [] => []
  | step :: steps => (s.miss? step).toList ++ misses host (s.step host step).1 steps

theorem Moves.calls {s' : Session} (h : s.Moves step s') :
    s'.calls = s.calls + (s.miss? step).toList.countP Sources.isHost := by
  have hquiet (hrequest : step.request? = none) : s.miss? step = none := by
    simp [miss?, hrequest]
  cases h with
  | stays hosted hrequest | adds hosted hrequest => 
    rw [hquiet hrequest]
    rfl
  | renews | configures | compiles => rfl
  | missing hrequest hasked =>
    simp [miss?, hrequest, hasked]
  | @requests _ chosen source e given hrequest hasked =>
    rw [request_eq, reply, Engine.asked_compile]
    cases hcached : e.isCached source <;> cases hhost : e.sources.isHost <;>
      simp [miss?, hrequest, hasked, hcached, hhost]

/-- The host was asked as often as a template was requested of an engine that asks it, which had not kept
it. -/
theorem calls_run (host : Host) (s : Session) (steps : List Step) :
    (s.run host steps).calls = s.calls + (s.misses host steps).countP Sources.isHost := by
  induction steps generalizing s with
  | nil => rfl
  | cons step steps ih =>
    have hrun : s.run host (step :: steps) = (s.step host step).1.run host steps := rfl
    rw [hrun, ih, (s.moves_step host step).calls, misses, List.countP_append, Nat.add_assoc]

/-! ### Numbers -/

/-- A template is held: an engine has kept it, or it was handed out. -/
def Holds (s : Session) (issued : Issued) : Prop :=
  issued ∈ s.kept ∨ ∃ e ∈ s.engines, ∃ source, (source, issued) ∈ e.cache

/-- The templates that are held are told apart by their numbers, and the next number is new. -/
structure Numbered (s : Session) : Prop where
  fresh : ∀ issued, s.Holds issued → issued.number < s.issued
  same : ∀ issued other, s.Holds issued → s.Holds other → issued.number = other.number →
    issued = other

theorem Holds.of_cache {issued : Issued} (he : s.engine? chosen = some e)
    (h : (source, issued) ∈ e.cache) : s.Holds issued := by
  cases chosen with
  | own j => exact .inr ⟨e, List.mem_of_getElem? he, source, h⟩
  | common =>
    cases he
    cases h

/-- What is held when one engine has changed. -/
theorem Holds.of_setEngine (chosen : Chosen) {other : Engine} {kept : List Issued} {issued : Issued}
    (h : Holds { s.setEngine chosen other with kept } issued) :
    issued ∈ kept ∨ s.Holds issued ∨ ∃ source, (source, issued) ∈ other.cache := by
  rcases h with h | ⟨e, he, source, h⟩
  · exact .inl h
  · cases chosen with
    | common => exact .inr (.inl (.inr ⟨e, he, source, h⟩))
    | own j =>
      rcases List.mem_or_eq_of_mem_set he with he | rfl
      · exact .inr (.inl (.inr ⟨e, he, source, h⟩))
      · exact .inr (.inr ⟨source, h⟩)

/-- What is held after a request, where a template may have been handed out. -/
theorem Holds.of_request {given : Option Issued} {issued : Issued}
    (h : Holds { (s.request chosen e source).1 with kept := s.kept ++ given.toList } issued) :
    s.Holds issued ∨ issued ∈ given ∨
      ∃ name, (name, issued) ∈ (s.reply e source).engine.cache := by
  rw [request_eq] at h
  rcases Holds.of_setEngine chosen h with h | h | h
  · rcases List.mem_append.mp h with h | h
    · exact .inl (.inl h)
    · exact .inr (.inl (Option.mem_toList.mp h))
  · exact .inl h
  · exact .inr (.inr h)

/-- What a request hands out was held before, or has just been made; no other template comes to be held. -/
theorem Holds.of_answered {given : Option Issued} (hasked : s.engine? chosen = some e)
    (hgiven : ∀ issued ∈ given, (s.reply e source).result = .ok issued) :
    ∃ made : Option Issued, (∀ issued ∈ made, issued.number = s.issued) ∧
      ∀ issued, Holds { (s.request chosen e source).1 with kept := s.kept ++ given.toList } issued →
        s.Holds issued ∨ issued ∈ made := by
  rcases s.reply_cases e source with ⟨t, -, hreply⟩ | ⟨-, hengine, hresult⟩
  · rw [hreply] at hgiven
    refine ⟨some ⟨s.issued, t⟩, ?_, fun issued h => ?_⟩
    · rintro _ ⟨⟩
      rfl
    rcases h.of_request with h | h | ⟨name, h⟩
    · exact .inl h
    · exact .inr (congrArg some (Except.ok.inj (hgiven issued h)))
    · rw [hreply] at h
      rcases List.mem_append.mp h with h | h
      · exact .inl (.of_cache hasked h)
      · cases List.mem_singleton.mp h
        exact .inr rfl
  · -- the engine is left as it was, so what is new is what is given, if that has just been made
    have hheld (issued : Issued)
        (h : Holds { (s.request chosen e source).1 with kept := s.kept ++ given.toList } issued) :
        s.Holds issued ∨ issued ∈ given := by
      rcases h.of_request with h | h | ⟨name, h⟩
      · exact .inl h
      · exact .inr h
      · rw [hengine] at h
        exact .inl (.of_cache hasked h)
    by_cases hnew : ∀ issued ∈ given, issued.number = s.issued
    · exact ⟨given, hnew, hheld⟩
    · refine ⟨none, nofun, fun issued h => .inl ?_⟩
      rcases hheld issued h with h | h
      · exact h
      · rcases hresult issued (hgiven issued h) with hcached | hnumber
        · exact .of_cache hasked (Bindings.mem_of_lookup hcached)
        · refine absurd (fun other hother => ?_) hnew
          cases h.symm.trans hother
          exact hnumber

/-- After a step there is at most one template that was not held before, and it has the number that was
the next. -/
theorem Moves.holds {s' : Session} (h : s.Moves step s') :
    s.issued ≤ s'.issued ∧ ∃ made : Option Issued,
      (∀ issued ∈ made, issued.number = s.issued ∧ s.issued < s'.issued) ∧
      ∀ issued, s'.Holds issued → s.Holds issued ∨ issued ∈ made := by
  cases h with
  | stays | missing => exact ⟨Nat.le_refl _, none, nofun, fun issued h => .inl h⟩
  -- an added engine holds nothing, since its cache is empty
  | @adds _ added hosted _ _ hempty =>
    refine ⟨Nat.le_refl _, none, nofun, ?_⟩
    rintro issued (h | ⟨e, he, source, h⟩)
    · exact .inl (.inl h)
    · rcases List.mem_append.mp he with he | he
      · exact .inl (.inr ⟨e, he, source, h⟩)
      · obtain rfl := List.mem_singleton.mp he
        rw [hempty] at h
        cases h
  | @renews j other configuration hj =>
    refine ⟨Nat.le_refl _, none, nofun, ?_⟩
    rintro issued (h | ⟨e, he, source, h⟩)
    · exact .inl (.inl h)
    · rcases List.mem_append.mp he with he | he
      · exact .inl (.inr ⟨e, List.mem_of_mem_eraseIdx he, source, h⟩)
      · obtain rfl := List.mem_singleton.mp he
        exact .inl (.inr ⟨other, List.mem_of_getElem? hj, source, h⟩)
  | @configures j other change hj =>
    refine ⟨Nat.le_refl _, none, nofun, fun issued h => .inl ?_⟩
    rcases Holds.of_setEngine (.own j) h with h | h | ⟨source, h⟩
    · exact .inl h
    · exact h
    · exact .inr ⟨other, List.mem_of_getElem? hj, source, h⟩
  -- what was made is kept by the session and by no engine
  | compiles made hmade =>
    refine ⟨Nat.le_succ _, made, fun issued h => ⟨hmade issued h, Nat.lt_succ_self _⟩, ?_⟩
    rintro issued (h | h)
    · rcases List.mem_append.mp h with h | h
      · exact .inl (.inl h)
      · exact .inr (Option.mem_toList.mp h)
    · exact .inl (.inr h)
  | @requests _ chosen source e given hrequest hasked hgiven =>
    have hnext : (s.request chosen e source).1.issued = s.issued + 1 := by rw [request_eq]
    dsimp only
    rw [hnext]
    obtain ⟨made, hmade, hheld⟩ := Holds.of_answered hasked hgiven
    exact ⟨Nat.le_succ _, made, fun issued h => ⟨hmade issued h, Nat.lt_succ_self _⟩, hheld⟩

theorem Numbered.moves {s' : Session} (hs : s.Numbered) (h : s.Moves step s') : s'.Numbered := by
  obtain ⟨hle, made, hmade, hholds⟩ := h.holds
  constructor
  · intro issued hissued
    rcases hholds issued hissued with hold | hnew
    · exact Nat.lt_of_lt_of_le (hs.fresh issued hold) hle
    · rw [(hmade issued hnew).1]
      exact (hmade issued hnew).2
  · intro issued other hissued hother hnumber
    rcases hholds issued hissued with hold | hnew <;> rcases hholds other hother with hold' | hnew'
    · exact hs.same issued other hold hold' hnumber
    · have hfresh := hs.fresh issued hold
      rw [hnumber, (hmade other hnew').1] at hfresh
      exact absurd hfresh (Nat.lt_irrefl _)
    · have hfresh := hs.fresh other hold'
      rw [← hnumber, (hmade issued hnew).1] at hfresh
      exact absurd hfresh (Nat.lt_irrefl _)
    · exact Option.some.inj (hnew.symm.trans hnew')

theorem Numbered.run (host : Host) (hs : s.Numbered) (steps : List Step) :
    (s.run host steps).Numbered := by
  induction steps generalizing s with
  | nil => exact hs
  | cons step steps ih => exact ih (hs.moves (s.moves_step host step))

end Session

/-- **The cache law, over every history.**  An engine keeps a template only when one is requested of it
under a name under which it has kept none, its sources know a text of that name, and the text compiles;
it is then kept as what the text compiles to with the configuration that the engine has at that step.
Nothing else changes any cache: neither names that are not known or do not compile, nor texts, changes of
configurations and sources, or steps with other engines.  The configuration of an engine is changed only by
the steps that are about it, to what they say.  From then on every request of that name gives
the very same template back, and the sources are not asked; the host is asked exactly by the requests
that miss.  A copy of an engine begins with nothing. -/
theorem session_caches (host : Host) (history : List Step) :
    let s := ({} : Session).run host history
    (∀ step i e, s.engines[i]? = some e →
      ∃ e', (s.step host step).1.engines[s.follow step i]? = some e' ∧ e'.sources = e.sources ∧
        step.Configures i e.configuration e'.configuration ∧
        ((∃ source t, s.Stores i e step source t ∧
            e'.cache = e.cache ++ [(source, ⟨s.issued, t⟩)]) ∨
          (∀ source t, ¬ s.Stores i e step source t) ∧ e'.cache = e.cache)) ∧
    (∀ i e source issued, s.engines[i]? = some e → e.cache.lookup source = some issued →
      ∀ steps, let s' := s.run host steps
        let i' := s.followAll host steps i
        ∃ e', s'.engines[i']? = some e' ∧ e.cache <+: e'.cache ∧
          (∀ resolve? number, e'.compile resolve? number source = ⟨e', false, .ok issued⟩) ∧
          s'.step host (.compile (.own i') source) =
            { s' with issued := s'.issued + 1 }.keep (.ok issued) ∧
          ∀ context key, s'.step host (.render (.own i') source context key) =
            ({ s' with issued := s'.issued + 1 }, Session.answerOf host (.ok issued) context key)) ∧
    (∀ (e : Engine) resolve? number source,
      (e.compile resolve? number source).asked = !e.isCached source) ∧
    s.calls = (({} : Session).misses host history).countP Sources.isHost ∧
    (∀ i e, s.engines[i]? = some e →
      (s.step host (.copy i)).1.engines = s.engines ++ [{ e with cache := [] }]) ∧
    s.Numbered := by
  intro s
  refine ⟨fun step i e he => ?_, ?_, Engine.asked_compile, ?_, ?_, ?_⟩
  · obtain ⟨e', he', hbecomes⟩ := s.engine_step host step he
    obtain ⟨hsources, hcache⟩ := hbecomes.cache
    exact ⟨e', he', hsources, hbecomes.configuration, hcache⟩
  · intro i e source issued he hcached steps s' i'
    obtain ⟨e', he', -, hgrown⟩ := s.cache_run host steps he
    have hcached' := Session.lookup_of_prefix hcached hgrown
    have hrequest : s'.request (.own i') e' source = ({ s' with issued := s'.issued + 1 }, .ok issued) :=
      Session.request_of_cached he' hcached'
    have hengine : s'.engine? (.own i') = some e' := he'
    refine ⟨e', he', hgrown, fun resolve? number => Engine.compile_of_cached _ _ hcached', ?_, ?_⟩
    · simp only [Session.step, hengine, hrequest]
    · intro context key
      simp only [Session.step, hengine, hrequest]
  · have hcalls := ({} : Session).calls_run host history
    rwa [Nat.zero_add] at hcalls
  · intro i e he
    simp only [Session.step, Session.withEngine, he]
    rfl
  · refine Session.Numbered.run host ⟨?_, ?_⟩ history
    · rintro issued (h | ⟨e, he, -⟩)
      · cases h
      · cases he
    · rintro issued other (h | ⟨e, he, -⟩)
      · cases h
      · cases he

/-- A template that was kept comes back after its source and the configuration have changed. -/
theorem session_caches_reconfigured :
    let host : Host := fun _ _ _ => pure (.error "")
    let history : List Step := [.create .host [("hello", "Hello")], .compile (.own 0) "hello"]
    let steps : List Step :=
      [.setSource "hello" (some "Goodbye"), .configure 0 { escapeDefault := some false }]
    let s := ({} : Session).run host history
    let issued : Issued := ⟨0, [.text "Hello"], true, "http:"⟩
    s.engines = [⟨{}, [("hello", issued)], .host⟩] ∧ s.calls = 1 ∧
      ((s.run host steps).step host (.compile (.own 0) "hello")).1.kept = [issued, issued] := by
  intro host history steps s issued
  have hengines : s.engines = [⟨{}, [("hello", issued)], .host⟩] := rfl
  have hengine : s.engines[0]? = some ⟨{}, [("hello", issued)], .host⟩ := by
    rw [hengines]
    rfl
  obtain ⟨-, hcached, -, hcalls, -⟩ := session_caches host history
  obtain ⟨e, -, -, -, hlater, -⟩ := hcached 0 _ "hello" issued hengine rfl steps
  have hposition : s.followAll host steps 0 = 0 := rfl
  have hkept : (s.run host steps).kept = [issued] := rfl
  rw [hposition] at hlater
  refine ⟨hengines, hcalls, ?_⟩
  rw [hlater, Session.keep_eq]
  exact congrArg (· ++ [issued]) hkept

end Stencil

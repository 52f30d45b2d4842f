/-
Stencil/Fault.lean

Why a template is refused, and why a render stops.  The two kinds of fault are
types of their own, so that compiling can only fail in the first way and
rendering only in the second.  The wording of every fault is in this file.
-/
import Stencil.Span

namespace Stencil

/-- The words that structure a template. -/
inductive DirectiveWord where
  | ifWord
  | elseIfWord
  | elseWord
  | endIf
  | forEachWord
  | forEachElse
  | forEachBreak
  | endForEach
  | defineWord
  | endDefine
  | runWord
deriving DecidableEq, Repr

/-- How a structuring word is written. -/
def DirectiveWord.spelling : DirectiveWord → String
  | .ifWord => "if"
  | .elseIfWord => "elseif"
  | .elseWord => "else"
  | .endIf => "/if"
  | .forEachWord => "foreach"
  | .forEachElse => "foreachelse"
  | .forEachBreak => "foreachbreak"
  | .endForEach => "/foreach"
  | .defineWord => "define"
  | .endDefine => "/define"
  | .runWord => "run"

/-- What is wrong with the text of a template. -/
inductive Complaint where
  | unclosedComment
  | unclosedDirective
  /-- The code is no sequence of statements. -/
  | unreadable
  | severalExpressions
  | noExpression
  | noArgumentList
  | lengthMissing
  | lengthNotWhole
  | conditionNotBracketed
  | malformed (word : DirectiveWord)
  | strayBreak
  | neverClosed (word : DirectiveWord)
  | unexpected (word : DirectiveWord)
deriving DecidableEq, Repr

/-- The wording of a complaint. -/
def Complaint.message : Complaint → String
  | .unclosedComment => "unclosed comment"
  | .unclosedDirective => "unclosed directive"
  | .unreadable => "invalid directive"
  | .severalExpressions => "expected a single expression"
  | .noExpression => "expected an expression"
  | .noArgumentList => "invalid argument list"
  | .lengthMissing => "`:s=` needs a length, as in `:s=value|10`"
  | .lengthNotWhole => "`:s=` length must be a whole number"
  | .conditionNotBracketed => "condition must be parenthesized"
  | .malformed word => "malformed `" ++ word.spelling ++ "` directive"
  | .strayBreak => "`foreachbreak` outside of `foreach` or `define`"
  | .neverClosed word => "`" ++ word.spelling ++ "` is never closed"
  | .unexpected word => "unexpected `" ++ word.spelling ++ "`"

/-- Why a template is refused. -/
inductive CompileFault where
  /-- One of the delimiters is empty. -/
  | emptyDelimiter
  | malformed (complaint : Complaint) (span : Span)
deriving DecidableEq, Repr

/-- An operation on a value that does not support it. -/
inductive Mismatch where
  /-- A property was asked of one of the two values that have none; `owner` is its text. -/
  | noProperties (key owner : String)
  | notAFunction (name : String)
  /-- A function of the host failed, with its own words. -/
  | host (message : String)
deriving DecidableEq, Repr

/-- The wording of a mismatch. -/
def Mismatch.message : Mismatch → String
  | .noProperties key owner => "cannot read property '" ++ key ++ "' of " ++ owner
  | .notAFunction name => name ++ " is not a function"
  | .host message => message

/-- Why a render stops. -/
inductive RenderFault where
  /-- The name is bound nowhere. -/
  | unbound (name : String) (span : Span)
  | mismatch (cause : Mismatch) (span : Span)
  /-- Sub-templates run one another deeper than `limit`. -/
  | callDepth (name : String) (limit : Nat) (span : Span)
deriving DecidableEq, Repr

/-- All that can go wrong between a source text and its output. -/
inductive Fault where
  | compile (fault : CompileFault)
  | render (fault : RenderFault)
deriving DecidableEq, Repr

namespace Fault

/-- The wording of a fault. -/
def message : Fault → String
  | .compile .emptyDelimiter => "invalid configuration: delimiters must not be empty"
  | .compile (.malformed complaint _) => complaint.message
  | .render (.unbound name _) => name ++ " is not defined"
  | .render (.mismatch cause _) => cause.message
  | .render (.callDepth name limit _) =>
    "sub-template `" ++ name ++ "` exceeded the maximum call depth of " ++ toString limit

/-- Where in the source the fault lies; a wrong configuration lies nowhere in it. -/
def span? : Fault → Option Span
  | .compile .emptyDelimiter => none
  | .compile (.malformed _ span) => some span
  | .render (.unbound _ span) => some span
  | .render (.mismatch _ span) => some span
  | .render (.callDepth _ _ span) => some span

/-- The template was refused; no render began. -/
def isCompileFault : Fault → Bool
  | .compile _ => true
  | .render _ => false

/-- What a report writes at the place of the fault. -/
def label : Fault → String
  | .compile .emptyDelimiter => ""
  | .compile (.malformed ..) => "in this directive"
  | .render (.unbound ..) => "not defined"
  | .render (.mismatch ..) => "in this expression"
  | .render (.callDepth ..) => "called here"

end Fault

end Stencil

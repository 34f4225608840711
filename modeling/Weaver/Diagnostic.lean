import Weaver.Text.Name

/-!
# Diagnostics

What the library has to say apart from results and errors: a log of entries with a severity and a
category, which may name the method, the event and the site that they are about.
-/

namespace Weaver

/-- How grave a diagnostic is. -/
inductive Severity where
  | info
  | warning
  | error
  deriving DecidableEq, Repr

/-- The tag of a severity. -/
def Severity.text : Severity → String
  | .info => "INFO"
  | .warning => "WARN"
  | .error => "ERROR"

/-- What a diagnostic is about. -/
inductive Category where
  | locator
  | resolution
  | injection
  | dispatch
  | configuration
  | redirect
  | runtime
  | general
  deriving DecidableEq, Repr

/-- The name of a category. -/
def Category.text : Category → String
  | .locator => "Locator"
  | .resolution => "Resolution"
  | .injection => "Injection"
  | .dispatch => "Dispatch"
  | .configuration => "Configuration"
  | .redirect => "Redirect"
  | .runtime => "Runtime"
  | .general => "General"

/-- An entry of the log. -/
structure Diagnostic where
  severity : Severity
  category : Category
  message : String
  method : Option String := none
  event : Option String := none
  site : Option Nat := none
  deriving DecidableEq

/-- The text of an entry: its severity, category and message, and then what it names. -/
def Diagnostic.text (entry : Diagnostic) : String :=
  s!"[{entry.severity.text}] {entry.category.text}: {entry.message}" ++
    (entry.method.map fun method => s!" (method: {method})").getD "" ++
    (entry.event.map fun event => s!" (event: {event})").getD "" ++
    (entry.site.map fun site => s!" (site: {site})").getD ""

/-- The entries so far, in order. -/
structure Log where
  entries : Array Diagnostic
  deriving DecidableEq

namespace Log

/-- The log without entries. -/
def empty : Log := ⟨#[]⟩

/-- Add an entry. -/
def push (log : Log) (entry : Diagnostic) : Log := ⟨log.entries.push entry⟩

/-- Add several entries. -/
def append (log : Log) (entries : List Diagnostic) : Log := entries.foldl push log

/-- The entries of a severity. -/
def ofSeverity (log : Log) (severity : Severity) : List Diagnostic :=
  log.entries.toList.filter (·.severity = severity)

/-- The entries of a category. -/
def ofCategory (log : Log) (category : Category) : List Diagnostic :=
  log.entries.toList.filter (·.category = category)

/-- The entries that name an event, whatever the case of its ASCII letters. -/
def ofEvent (log : Log) (name : String) : List Diagnostic :=
  log.entries.toList.filter fun entry => entry.event.any (Text.folded · = Text.folded name)

/-- A heading and the lines of some entries, or nothing if there are none. -/
def section? (heading : String) (entries : List Diagnostic) : String :=
  if entries.isEmpty then ""
  else s!"\n{heading}:\n" ++ String.join (entries.map fun entry => s!"  {entry.text}\n")

/-- The counts of all severities, and the errors and warnings in full. -/
def summary (log : Log) : String :=
  let errors := log.ofSeverity .error
  let warnings := log.ofSeverity .warning
  let infos := log.ofSeverity .info
  s!"Diagnostics: {errors.length} error(s), {warnings.length} warning(s), " ++
    s!"{infos.length} info(s)\n" ++ section? "Errors" errors ++ section? "Warnings" warnings

@[simp]
theorem toList_push (log : Log) (entry : Diagnostic) :
    (log.push entry).entries.toList = log.entries.toList ++ [entry] := by
  simp [push]

@[simp]
theorem toList_append (log : Log) (entries : List Diagnostic) :
    (log.append entries).entries.toList = log.entries.toList ++ entries := by
  induction entries generalizing log with
  | nil => simp [append]
  | cons entry rest ih => simpa [append] using ih (log.push entry)

end Log

end Weaver

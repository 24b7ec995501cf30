import Mapf.Text.Terminal

/-! # Log events -/

namespace Mapf

/-- How important an event is. -/
inductive Level where
  | info
  | warn
  | error
  deriving DecidableEq

def Level.name : Level → String
  | .info => "INFO"
  | .warn => "WARN"
  | .error => "ERROR"

/-- A line of the log. -/
structure Event where
  level : Level
  text : String
  deriving DecidableEq

/-- The text of an event as the log shows it. -/
def Event.shown (event : Event) : String := .ofList (Text.shown event.text.toList)

def Event.info (text : String) : Event := ⟨.info, text⟩

def Event.warn (text : String) : Event := ⟨.warn, text⟩

def Event.error (text : String) : Event := ⟨.error, text⟩

end Mapf

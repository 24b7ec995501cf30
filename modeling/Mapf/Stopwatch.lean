import Std.Data.HashMap

/-! # Stopwatches for named phases

A phase may be started and stopped again and again; the time spent in it adds up. Readings come from
the caller, in milliseconds. Starting a running phase and stopping one that does not run change
nothing. -/

namespace Mapf

/-- The time recorded for each phase, and when each running phase was started. -/
structure Stopwatch where
  recorded : Std.HashMap String Nat
  running : Std.HashMap String Nat

namespace Stopwatch

def fresh : Stopwatch := ⟨∅, ∅⟩

def isActive (w : Stopwatch) (phase : String) : Bool := w.running.contains phase

def start (w : Stopwatch) (phase : String) (now : Nat) : Stopwatch :=
  if w.isActive phase then w else { w with running := w.running.insert phase now }

/-- Ends the lap of `phase`: its time, `none` when it was not running, and the stopwatch after it. -/
def stop (w : Stopwatch) (phase : String) (now : Nat) : Option Nat × Stopwatch :=
  match w.running[phase]? with
  | none => (none, w)
  | some started =>
    let lap := now - started
    (some lap,
      { recorded := w.recorded.insert phase (w.recorded.getD phase 0 + lap)
        running := w.running.erase phase })

/-- The time of `phase` with a lap that still runs; `none` when the phase is unknown. -/
def elapsed? (w : Stopwatch) (phase : String) (now : Nat) : Option Nat :=
  match w.recorded[phase]?, w.running[phase]? with
  | none, none => none
  | recorded, running => some (recorded.getD 0 + (running.map (now - ·)).getD 0)

def reset (w : Stopwatch) (phase : String) : Stopwatch :=
  { recorded := w.recorded.erase phase, running := w.running.erase phase }

end Stopwatch

end Mapf

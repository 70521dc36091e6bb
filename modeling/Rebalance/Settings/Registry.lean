import Rebalance.Settings.Sources

/-!
# Opened settings

Settings are opened any number of times, each time apart from the others. One opening is shared by
all who ask for shared settings, until the sharing is given up; whoever holds it keeps it.
-/

namespace Rebalance.Settings

/-- All settings that were opened, each known by its place, and the place of the shared ones. -/
structure Registry where
  opened : List Table := []
  shared : Option Nat := none

namespace Registry

/-- The settings at a place. -/
def at? (r : Registry) (place : Nat) : Option Table := r.opened[place]?

/-- Opens settings and tells their place. -/
def add (r : Registry) (file : File) (environment : Environment) :
    Except Fault (Nat × Registry) := do
  let t ← load file environment
  return (r.opened.length, { r with opened := r.opened ++ [t] })

/-- The place of the shared settings, which are opened if there are none. -/
def share (r : Registry) (file : File) (environment : Environment) :
    Except Fault (Nat × Registry) :=
  match r.shared with
  | some place => return (place, r)
  | none => do
    let (place, r) ← r.add file environment
    return (place, { r with shared := some place })

/-- Gives up the sharing. -/
def unshare (r : Registry) : Registry := { r with shared := none }

/-- Stores a setting in the settings at a place. -/
def setAt (r : Registry) (place : Nat) (key : String) (v : Value) : Except Fault Registry :=
  match r.at? place with
  | some t => do
    let t ← set t key v
    return { r with opened := r.opened.set place t }
  | none => return r

end Registry

end Rebalance.Settings

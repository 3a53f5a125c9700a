import Sluice.Bench.Peer
import Sluice.Bench.Recorder
import Sluice.Bench.Script

/-!
A world of recording channels, in which producers, buffers and exchanges can be tried out.
-/
namespace Sluice

/-- A channel of the bench: one of those on the outside, or the one a pump brought. -/
inductive Line
  | outside (place : Nat)
  | pump (place : Nat)
  deriving DecidableEq

/-- A capacity channel that records what is announced, also while it fails. -/
structure CapacityRecorder where
  grants : List Nat
  failing : Bool
  deriving DecidableEq

def CapacityRecorder.update (r : CapacityRecorder) (increment : Nat) :
    Except Fault Unit × CapacityRecorder :=
  (if r.failing then .error (.io .connectionReset "window closed") else .ok (),
    { r with grants := r.grants ++ [increment] })

/-- A head as it reached the response channel, and whether it was refused there. -/
structure SentHead where
  head : Http.Head
  entity : Http.Entity
  refused : Bool
  deriving DecidableEq

structure Bench where
  channels : List FaultyRecorder
  windows : List Window
  capacities : List CapacityRecorder
  bells : List Bell
  heads : List SentHead
  refusing : Bool
  deriving DecidableEq

namespace Bench

def ofChannels (channels : List FaultyRecorder) : Bench :=
  ⟨channels, [], [⟨[], false⟩, ⟨[], false⟩], [], [], false⟩

def addWindow (b : Bench) (size : Nat) : Line × Bench :=
  (.pump b.windows.length, { b with windows := b.windows ++ [.ofSize size] })

def addBell (b : Bench) : Line × Bench :=
  (.pump b.bells.length, { b with bells := b.bells ++ [.silent] })

def recorder (b : Bench) (place : Nat) : Recorder :=
  ((b.channels[place]?).map FaultyRecorder.recorder).getD (.withLimit none)

def rewire (b : Bench) (place : Nat) (limit : Option Nat) (faults : Misbehaviour) : Bench :=
  { b with channels := b.channels.modify place (·.rewire limit faults) }

def failCapacity (b : Bench) (place : Nat) (failing : Bool) : Bench :=
  { b with capacities := b.capacities.modify place ({ · with failing }) }

instance : Transport Line Bench where
  write line bytes b :=
    match line with
    | .outside n =>
      let (r, channels) := actAt (·.write bytes) (.ok 0) n b.channels
      (r, { b with channels })
    | .pump n =>
      let (r, windows) := actAt (·.write bytes) (.ok 0) n b.windows
      (r, { b with windows })
  requestOutput line b :=
    match line with
    | .outside n => { b with channels := b.channels.modify n (·.requestOutput) }
    | .pump n => { b with windows := b.windows.modify n (·.requestOutput) }
  endStream line trailers b :=
    match line with
    | .outside n =>
      let (r, channels) := actAt (·.endStream trailers) (.ok ()) n b.channels
      (r, { b with channels })
    | .pump n => (.ok (), { b with windows := b.windows.modify n (·.endStream) })

instance : WindowAccess Line Bench where
  window line b :=
    match line with
    | .outside _ => .ofSize 0
    | .pump n => (b.windows[n]?).getD (.ofSize 0)
  update line w b :=
    match line with
    | .outside _ => b
    | .pump n => { b with windows := b.windows.set n w }

instance : CapacityChannel Line Bench where
  update line increment b :=
    match line with
    | .outside n =>
      let (r, capacities) := actAt (·.update increment) (.ok ()) n b.capacities
      (r, { b with capacities })
    | .pump n =>
      (.ok (), if 0 < increment then { b with bells := b.bells.modify n Bell.ring } else b)

instance : BellAccess Line Bench where
  bell line b :=
    match line with
    | .outside _ => .silent
    | .pump n => (b.bells[n]?).getD .silent
  update line bell b :=
    match line with
    | .outside _ => b
    | .pump n => { b with bells := b.bells.set n bell }

/-- Heads are recorded whether they are refused or not. -/
instance : ResponseChannel Bench where
  send head entity b :=
    (if b.refusing then .error (.io .brokenPipe "response channel closed") else .ok (),
      { b with heads := b.heads ++ [⟨head, entity, b.refusing⟩] })

end Bench
end Sluice

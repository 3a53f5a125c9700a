import Sluice.Pump.Bell
import Sluice.Transport

/-!
The channel between a producer and an outbound pump: it takes what fits a window, and its bell
rings when output is asked for.
-/
namespace Sluice

structure Window where
  size : Nat
  pending : List UInt8
  requested : Bool
  ended : Bool
  bell : Bell
  deriving DecidableEq

namespace Window

def ofSize (size : Nat) : Window := ⟨size, [], false, false, .silent⟩

def write (w : Window) (bytes : List UInt8) : Except Fault Nat × Window :=
  if w.ended then (.error .writeAfterEnd, w)
  else
    let taken := min (w.size - w.pending.length) bytes.length
    (.ok taken, { w with pending := w.pending ++ bytes.take taken })

def requestOutput (w : Window) : Window := { w with requested := true, bell := w.bell.ring }

/-- Trailers have no place in a plain byte stream and are dropped. -/
def endStream (w : Window) : Window := { w with ended := true }

/-- What a pump finds in a window: the pending bytes, whether the stream has ended behind them, and
whether output was asked for. -/
structure Contents where
  chunk : List UInt8
  ended : Bool
  requested : Bool
  deriving DecidableEq

def take (w : Window) : Contents × Window :=
  (⟨w.pending, w.ended, w.requested⟩, { w with pending := [], requested := false })

end Window

/-- Windows among the data channels of a world. -/
class WindowAccess (ι σ : Type) where
  window : ι → σ → Window
  update : ι → Window → σ → σ

/-- A window on its own. -/
instance : Transport Unit Window where
  write _ bytes w := w.write bytes
  requestOutput _ w := w.requestOutput
  endStream _ _ w := (.ok (), w.endStream)

instance : WindowAccess Unit Window where
  window _ w := w
  update _ w _ := w

/-- Bells behind the capacity channels of a world. -/
class BellAccess (κ σ : Type) where
  bell : κ → σ → Bell
  update : κ → Bell → σ → σ

/-- A bell on its own rings when room is announced. -/
instance : CapacityChannel Unit Bell where
  update _ increment bell := (.ok (), if 0 < increment then bell.ring else bell)

instance : BellAccess Unit Bell where
  bell _ b := b
  update _ b _ := b

end Sluice

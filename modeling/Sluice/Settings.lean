import Sluice.Fault

/-!
The sizes and limits the parts of the library run with.
-/
namespace Sluice

/-- The largest number a setting can hold. -/
def maxWord : Nat := 18446744073709551615

/-- How much a producer stages, and from how many bytes on it sends them. -/
structure ProducerSettings where
  bufferSize : Nat
  fragmentHint : Option Nat
  deriving DecidableEq

/-- The size of a shared buffer, and how many milliseconds a blocked worker waits for it. -/
structure BufferSettings where
  bufferSize : Nat
  waitMillis : Option Nat
  deriving DecidableEq

/-- How much a pump keeps on its way out and reads at once on its way in. -/
structure PumpSettings where
  windowSize : Nat
  readChunk : Nat
  deriving DecidableEq

structure Settings where
  producer : ProducerSettings
  buffer : BufferSettings
  pump : PumpSettings
  deriving DecidableEq

namespace ProducerSettings

def default : ProducerSettings := ⟨4096, none⟩

/-- Without a hint of its own a producer sends from half its buffer on. -/
def hint (s : ProducerSettings) : Nat := s.fragmentHint.getD (s.bufferSize / 2)

def validate (s : ProducerSettings) : Except Fault Unit :=
  if s.bufferSize = 0 then .error (.invalidConfig "producer buffer_size must be positive") else .ok ()

end ProducerSettings

namespace BufferSettings

def default : BufferSettings := ⟨8192, none⟩

/-- Wait for whole milliseconds of a duration, as many as fit a word. -/
def waiting (s : BufferSettings) (seconds nanos : Nat) : BufferSettings :=
  { s with waitMillis := some (min (seconds * 1000 + nanos / 1000000) maxWord) }

def validate (s : BufferSettings) : Except Fault Unit :=
  if s.bufferSize = 0 then .error (.invalidConfig "shared buffer_size must be positive") else .ok ()

end BufferSettings

namespace PumpSettings

def default : PumpSettings := ⟨65536, 65536⟩

def validate (s : PumpSettings) : Except Fault Unit :=
  if s.windowSize = 0 ∨ s.readChunk = 0 then
    .error (.invalidConfig "pump window_size and read_chunk_size must be positive")
  else .ok ()

end PumpSettings

namespace Settings

def default : Settings := ⟨.default, .default, .default⟩

/-- Sections are checked in their order, and the first fault is the answer. -/
def validate (s : Settings) : Except Fault Unit := do
  s.producer.validate
  s.buffer.validate
  s.pump.validate

end Settings
end Sluice

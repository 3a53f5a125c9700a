import Sluice.Json.Record

/-!
Settings as JSON documents. A document replaces the default settings field by field.
-/
namespace Sluice

open Json (RecordField Reader)

namespace ProducerSettings

def fields : List (RecordField ProducerSettings) :=
  [⟨"buffer_size", fun p s => (Json.readWord s).map fun (n, s) => ({ p with bufferSize := n }, s)⟩,
   ⟨"fragment_size_hint", fun p s =>
      (Json.readWord? s).map fun (n, s) => ({ p with fragmentHint := n }, s)⟩]

def document (p : ProducerSettings) : String :=
  "\x7b\"buffer_size\":" ++ toString p.bufferSize ++ ",\"fragment_size_hint\":" ++
    (p.fragmentHint.elim "null" toString) ++ "\x7d"

end ProducerSettings

namespace BufferSettings

def fields : List (RecordField BufferSettings) :=
  [⟨"buffer_size", fun b s => (Json.readWord s).map fun (n, s) => ({ b with bufferSize := n }, s)⟩,
   ⟨"wait_timeout_ms", fun b s =>
      (Json.readWord? s).map fun (n, s) => ({ b with waitMillis := n }, s)⟩]

def document (b : BufferSettings) : String :=
  "\x7b\"buffer_size\":" ++ toString b.bufferSize ++ ",\"wait_timeout_ms\":" ++
    (b.waitMillis.elim "null" toString) ++ "\x7d"

end BufferSettings

namespace PumpSettings

def fields : List (RecordField PumpSettings) :=
  [⟨"window_size", fun p s => (Json.readWord s).map fun (n, s) => ({ p with windowSize := n }, s)⟩,
   ⟨"read_chunk_size", fun p s =>
      (Json.readWord s).map fun (n, s) => ({ p with readChunk := n }, s)⟩]

def document (p : PumpSettings) : String :=
  "\x7b\"window_size\":" ++ toString p.windowSize ++ ",\"read_chunk_size\":" ++
    toString p.readChunk ++ "\x7d"

end PumpSettings

namespace Settings

def fields : List (RecordField Settings) :=
  [⟨"producer", fun c s =>
      (Json.readRecord ProducerSettings.fields .default s).map
        fun (p, s) => ({ c with producer := p }, s)⟩,
   ⟨"buffer", fun c s =>
      (Json.readRecord BufferSettings.fields .default s).map
        fun (b, s) => ({ c with buffer := b }, s)⟩,
   ⟨"pump", fun c s =>
      (Json.readRecord PumpSettings.fields .default s).map
        fun (p, s) => ({ c with pump := p }, s)⟩]

/-- The document without blanks that states every field in order. -/
def document (c : Settings) : String :=
  "\x7b\"producer\":" ++ c.producer.document ++ ",\"buffer\":" ++ c.buffer.document ++
    ",\"pump\":" ++ c.pump.document ++ "\x7d"

/-- Read settings from a document and refuse those that do not hold together. -/
def ofDocument (text : String) : Except Fault Settings :=
  match Json.readAll (Json.readRecord fields .default) text.toList with
  | .error flaw => .error (.json flaw)
  | .ok settings =>
    match settings.validate with
    | .error fault => .error fault
    | .ok () => .ok settings

/-- Read settings from the contents of a file, which is absent or holds bytes that should be
UTF-8. -/
def ofFile : Option ByteArray → Except Fault Settings
  | none => .error (.io .notFound "No such file or directory (os error 2)")
  | some bytes =>
    match String.fromUTF8? bytes with
    | none => .error (.io .invalidData "stream did not contain valid UTF-8")
    | some text => ofDocument text

end Settings
end Sluice

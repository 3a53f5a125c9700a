import Sluice.MediaType
import Sluice.Producer.Source
import Sluice.Settings

/-!
Producers of message bodies. A producer stages what its source and its writers give it, and hands
it to a channel turn by turn.
-/
namespace Sluice

structure Producer (γ ι τ : Type) where
  core : Core γ ι
  source : τ
  hint : Nat
  contentType : Option MediaType

namespace Producer

variable {γ κ ι σ τ : Type} [Coder γ κ] [Transport ι σ] [Source τ κ]

def ofCoder (settings : ProducerSettings) (contentType : Option MediaType) (coder : γ) (source : τ) :
    Except Fault (Producer γ ι τ) :=
  settings.validate.map fun () =>
    ⟨.initial settings.bufferSize coder, source, settings.hint, contentType⟩

def binary (settings : ProducerSettings) (contentType : Option MediaType) (source : τ) :
    Except Fault (Producer BinaryCoder ι τ) :=
  ofCoder settings contentType .initial source

/-- A producer of text with an encoder of the caller's choice. -/
def textWith {ε : Type} (settings : ProducerSettings) (contentType : Option MediaType)
    (encoder : ε) (source : τ) : Except Fault (Producer (TextCoder ε) ι τ) :=
  ofCoder settings contentType (.ofEncoder encoder) source

/-- A producer of text in the charset of its content type, or in US-ASCII if that names none. -/
def text (settings : ProducerSettings) (contentType : Option MediaType) (source : τ) :
    Except Fault (Producer (TextCoder CharsetEncoder) ι τ) :=
  textWith settings contentType ((contentType.bind MediaType.charset).getD .usAscii).encoder source

/-- A turn: the source is called as long as the application has not ended, and what is due goes to
the channel. A fault of the source ends the turn. -/
def produce (p : Producer γ ι τ) (ch : ι) (s : σ) : Except Fault Unit × Producer γ ι τ × σ :=
  let core := p.core.openTurn ch
  if core.state = .active then
    match (Source.turn p.source).run p.hint core s with
    | ((.error fault, source), core, s) => (.error fault, { p with core, source }, s)
    | ((.ok (), source), core, s) =>
      let (result, core, s) := core.closeTurn p.hint ch s
      (result, { p with core, source }, s)
  else
    let (result, core, s) := core.closeTurn p.hint ch s
    (result, { p with core }, s)

def available (p : Producer γ ι τ) : Nat := p.core.stage.remaining

def write (p : Producer γ ι τ) (data : κ) (s : σ) : Except Fault Nat × Producer γ ι τ × σ :=
  let (result, core, s) := p.core.post p.hint data s
  (result, { p with core }, s)

def endStream (p : Producer γ ι τ) (s : σ) : Producer γ ι τ × σ :=
  let (core, s) := p.core.postEnd s
  ({ p with core }, s)

/-- Forget the message, then let go of the source. -/
def release (p : Producer γ ι τ) : Producer γ ι τ :=
  { p with core := p.core.release, source := Source.release p.source }

/-- The body is streamed under the content type, and nothing else is known of it. -/
def entity (p : Producer γ ι τ) : Http.Entity := .streamed (p.contentType.map MediaType.text) none

def isRepeatable (_ : Producer γ ι τ) : Bool := false

def writerText (p : Producer γ ι τ) : String :=
  "EntityWriter \x7b fragment_size_hint: " ++ toString p.hint ++ ", .. \x7d"

end Producer
end Sluice

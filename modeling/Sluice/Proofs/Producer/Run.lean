import Sluice.Bench.Index
import Sluice.Bench.Recorder
import Sluice.Proofs.Producer.Lifecycle
import Sluice.Proofs.Producer.Turns

/-! A producer with its turns and handles, section by section. Its channels hear of the end of a stream
once with success, and behind everything else. -/
namespace Sluice

section Sections

variable {γ κ ι σ τ : Type} [Coder γ κ] [Transport ι σ] {events : List (ProducerEvent κ ι)}

def TurnStage.minutes (t : TurnStage κ ι τ) (ch : ι) (p : Producer γ ι τ) (world : σ) : List (ProducerEvent κ ι) :=
  match t with
  | opening => if p.core.state = .active then [.sourced] else []
  | calling (.write data _) => p.core.writeMinutes p.hint data world
  | calling (.endStream _) => [.ended]
  | asking known _ => Core.askMinutes κ known world
  | closing => p.core.closeMinutes p.hint ch world
  | _ => []

def HandleCall.minutes (e : HandleCall κ ι) (p : Producer γ ι τ) (world : σ) : List (ProducerEvent κ ι) :=
  match e with
  | writing data => p.core.writeMinutes p.hint data world
  | ending => [.ended]
  | asking known _ => Core.askMinutes κ known world
  | done _ => []

/-- A step of a call is a write, the end of the stream or nothing to the producer. -/
theorem HandleCall.step_core (e : HandleCall κ ι) (p : Producer γ ι τ) (s : σ) :
    (e.step p s).2.1.core = match e with
      | writing data => (p.core.write p.hint data s).2.1
      | ending => p.core.endStream
      | _ => p.core := by
  match e with
  | writing data =>
    simp only [step]
    split
    all_goals
      next written => rw [written]
  | ending => rfl
  | asking known answer => rfl
  | done answer => rfl

private theorem HandleCall.step_next (e : HandleCall κ ι) (p : Producer γ ι τ) (s : σ) :
    p.core.state.Next (e.step p s).2.1.core.state := by
  rw [step_core]
  match e with
  | writing data => exact (p.core.state_write p.hint data s).symm ▸ .refl _
  | ending => exact p.core.state_endStream
  | asking known answer => exact .refl _
  | done answer => exact .refl _

private theorem TurnStage.step_next [Source τ κ] (t : TurnStage κ ι τ) (ch : ι) (p : Producer γ ι τ) (s : σ) :
    p.core.state.Next (t.step ch p s).2.1.core.state := by
  match t with
  | opening => exact .refl _
  | calling (.done (.error fault, source)) => exact .refl _
  | calling (.done (.ok (), source)) => exact .refl _
  | calling (.write data next) => exact (p.core.state_write p.hint data s).symm ▸ .refl _
  | calling (.endStream next) => exact p.core.state_endStream
  | asking known rest => exact .refl _
  | closing => exact p.core.state_closeTurn p.hint ch s
  | finished result => exact .refl _

variable [KeepingCoder γ]

private theorem Core.Aged.turns [Source τ κ] {p : Producer γ ι τ} (h : p.core.Aged events) (t : TurnStage κ ι τ)
    (ch : ι) (world : σ) :
    (t.step ch p (Chronicle.start (ι := ι) world)).2.1.core.Aged (events ++ t.minutes ch p world) := by
  have idle : p.core.Aged (events ++ []) := (List.append_nil events).symm ▸ h
  match t with
  | .opening => exact h.opened ch
  | .calling (.done (.error fault, source)) => exact idle
  | .calling (.done (.ok (), source)) => exact idle
  | .calling (.write data next) => exact h.writes p.hint data world
  | .calling (.endStream next) => exact h.ends
  | .asking known rest => exact h.asked known world
  | .closing => exact h.closes p.hint ch world
  | .finished result => exact idle

private theorem Core.Aged.handleCalls {p : Producer γ ι τ} (h : p.core.Aged events) (e : HandleCall κ ι) (world : σ) :
    (e.step p (Chronicle.start (ι := ι) world)).2.1.core.Aged (events ++ e.minutes p world) := by
  rw [HandleCall.step_core]
  match e with
  | .writing data => exact h.writes p.hint data world
  | .ending => exact h.ends
  | .asking known answer => exact h.asked known world
  | .done answer => exact (List.append_nil events).symm ▸ h

end Sections

/-- A producer among its channels, the turn it is in with the channel of that, the calls of its handles,
and the events since its last release. -/
structure ProducerRun (γ κ ι σ τ : Type) where
  producer : Producer γ ι τ
  world : σ
  turn : Option (ι × TurnStage κ ι τ)
  handleCalls : List (HandleCall κ ι)
  events : List (ProducerEvent κ ι)

namespace ProducerRun

variable {γ κ ι σ τ : Type}

/-- A turn begins or does its next section, a handle is called or its call does its next step, the
source is exchanged, the producer is released, or the channels change on their own. -/
inductive Move (κ ι σ τ : Type)
  | turn (ch : ι)
  | work
  | write (data : κ)
  | endStream
  | resume (place : Nat)
  | supply (source : τ)
  | release
  | become (world : σ)

def start (producer : Producer γ ι τ) (world : σ) : ProducerRun γ κ ι σ τ := ⟨producer, world, none, [], []⟩

def busy (w : ProducerRun γ κ ι σ τ) : Bool := w.turn.any fun t => t.2.result?.isNone

variable [Coder γ κ] [Transport ι σ] [Source τ κ]

/-- A turn begins when none is under way. -/
def step (w : ProducerRun γ κ ι σ τ) : Move κ ι σ τ → ProducerRun γ κ ι σ τ
  | .turn ch => if w.busy then w else { w with turn := some (ch, .opening) }
  | .work =>
    match w.turn with
    | none => w
    | some (ch, t) =>
      let (t', producer, c) := t.step ch w.producer (Chronicle.start (ι := ι) w.world)
      { w with
        producer
        world := c.world
        turn := some (ch, t')
        events := w.events ++ t.minutes ch w.producer w.world }
  | .write data => { w with handleCalls := w.handleCalls ++ [.writing data] }
  | .endStream => { w with handleCalls := w.handleCalls ++ [.ending] }
  | .resume place =>
    match w.handleCalls[place]? with
    | none => w
    | some e =>
      let (e', producer, c) := e.step w.producer (Chronicle.start (ι := ι) w.world)
      { w with
        producer
        world := c.world
        handleCalls := w.handleCalls.set place e'
        events := w.events ++ e.minutes w.producer w.world }
  | .supply source => { w with producer := { w.producer with source } }
  | .release => { w with producer := w.producer.release, events := [] }
  | .become world => { w with world }

def run (moves : List (Move κ ι σ τ)) (w : ProducerRun γ κ ι σ τ) : ProducerRun γ κ ι σ τ := moves.foldl step w

/-- Whatever happens, the events keep to their law, the producer does not go back in its life without
a release, and once the application has ended the stream, a write is refused and changes nothing. -/
def EndsOnce (first : ProducerRun γ κ ι σ τ) : Prop :=
  ∀ moves : List (Move κ ι σ τ), let w := first.run moves
    Lawful ProducerEvent.Law w.events ∧
    (∀ move, move ≠ .release → w.producer.core.state.Next (w.step move).producer.core.state) ∧
    (.ended ∈ w.events → ∀ data s,
      w.producer.core.write w.producer.hint data (s : σ) = (.error .writeAfterEnd, w.producer.core, s))

private theorem next_step (w : ProducerRun γ κ ι σ τ) {move : Move κ ι σ τ} (going : move ≠ .release) :
    w.producer.core.state.Next (w.step move).producer.core.state := by
  cases move with
  | turn ch =>
    simp only [step]
    split
    · exact .refl _
    · exact .refl _
  | work =>
    simp only [step]
    split
    · exact .refl _
    next ch t under => exact t.step_next ch w.producer (Chronicle.start (ι := ι) w.world)
  | write data => exact .refl _
  | endStream => exact .refl _
  | resume place =>
    simp only [step]
    split
    · exact .refl _
    next e under => exact e.step_next w.producer (Chronicle.start (ι := ι) w.world)
  | supply source => exact .refl _
  | release => exact absurd rfl going
  | become world => exact .refl _

variable [KeepingCoder γ]

private theorem aged_step {w : ProducerRun γ κ ι σ τ} (h : w.producer.core.Aged w.events) (move : Move κ ι σ τ) :
    (w.step move).producer.core.Aged (w.step move).events := by
  cases move with
  | turn ch =>
    simp only [step]
    split
    · exact h
    · exact h
  | work =>
    simp only [step]
    split
    · exact h
    next ch t under => exact h.turns t ch w.world
  | write data => exact h
  | endStream => exact h
  | resume place =>
    simp only [step]
    split
    · exact h
    next e under => exact h.handleCalls e w.world
  | supply source => exact h
  -- a release leaves a new core around a coder that starts over, and no events
  | release => exact .initial w.producer.core.stage.capacity (Coder.reset w.producer.core.coder)
  | become world => exact h

private theorem aged_run {w : ProducerRun γ κ ι σ τ} (h : w.producer.core.Aged w.events) (moves : List (Move κ ι σ τ)) :
    (w.run moves).producer.core.Aged (w.run moves).events := by
  induction moves generalizing w with
  | nil => exact h
  | cons move rest ih => exact ih (aged_step h move)

/-- A producer as it is made ends once. -/
theorem endsOnce {settings : ProducerSettings} {contentType : Option MediaType} {coder : γ} {source : τ}
    {p : Producer γ ι τ} (made : Producer.ofCoder settings contentType coder source = .ok p) (world : σ) :
    (start p world).EndsOnce := by
  obtain ⟨_, _, same⟩ := ok_of_map made
  have first : p.core.Aged ([] : List (ProducerEvent κ ι)) := by
    rw [same]
    exact .initial settings.bufferSize coder
  intro moves w
  have aged : w.producer.core.Aged w.events := aged_run (w := start p world) first moves
  refine ⟨aged.lawful, fun move going => w.next_step going, fun ended data s => ?_⟩
  exact if_neg (aged.ended.mpr ended)

end ProducerRun

/-- Producers of bytes and of text end their stream once and behind everything else, whatever turns,
handles and channels do. -/
theorem producer_ends_once {ι σ τ υ ε : Type} [Transport ι σ] [Source τ (List UInt8)] [Source υ (List Char)]
    [Encoder ε] (settings : ProducerSettings) (contentType : Option MediaType) (world : σ) :
    (∀ (source : τ) (p : Producer BinaryCoder ι τ),
      Producer.binary settings contentType source = .ok p → (ProducerRun.start p world).EndsOnce) ∧
    ∀ (encoder : ε) (source : υ) (p : Producer (TextCoder ε) ι υ),
      Producer.textWith settings contentType encoder source = .ok p → (ProducerRun.start p world).EndsOnce :=
  ⟨fun _ _ made => ProducerRun.endsOnce made world, fun _ _ _ made => ProducerRun.endsOnce made world⟩

section Sample

attribute [local instance] sampleIndex

/-- Three bytes go to a channel that takes two at a time and does not want to hear of the end. Another
one is told in the next turn, and told nothing more in the turn behind that. -/
theorem producer_ends_once_refused :
    let settings : ProducerSettings := ⟨4, some 2⟩
    let source : Script (List UInt8) := .ofActions [.write [1, 2, 3], .endStream]
    let lines : Script (List Char) := .ofActions [.write ['a'], .endStream]
    let p : Producer BinaryCoder Nat (Script (List UInt8)) := ⟨.initial 4 .initial, source, 2, none⟩
    let q : Producer (TextCoder CharsetEncoder) Nat (Script (List Char)) :=
      ⟨.initial 4 (.ofEncoder (.builtIn ⟨.utf16, true⟩)), lines, 2, none⟩
    let deaf : List FaultyRecorder := [⟨.withLimit (some 2), ⟨false, true, 0⟩⟩]
    let willing : List FaultyRecorder := [⟨.withLimit none, ⟨false, false, 0⟩⟩]
    let first := (ProducerRun.start p deaf).run ([.turn 0] ++ .replicate 6 .work ++ [.turn 0, .work, .work])
    let last := first.run [.become willing, .turn 0, .work, .work, .turn 0, .work, .work]
    Producer.binary settings none source = .ok p ∧ (ProducerRun.start p deaf).EndsOnce ∧
      Producer.textWith settings none Charset.utf16.encoder lines = .ok q ∧ (ProducerRun.start q deaf).EndsOnce ∧
      first.world.map (fun f => f.recorder.data) = [[1, 2, 3]] ∧ first.producer.core.endSignalled = false ∧
      last.world.map (fun f => f.recorder.ends) = [1] ∧ last.producer.core.state = .ended := by
  intro settings source lines p q deaf willing first last
  obtain ⟨binary, text⟩ := producer_ends_once (ι := Nat) (τ := Script (List UInt8)) (υ := Script (List Char))
    (ε := CharsetEncoder) settings none deaf
  exact ⟨rfl, binary source p rfl, rfl, text _ lines q rfl, by decide, by decide, by decide, by decide⟩

end Sample

end Sluice

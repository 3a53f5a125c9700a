import Sluice.Bench.Peer
import Sluice.Bench.Script
import Sluice.Exchange
import Sluice.Proofs.Producer.Calls
import Sluice.Proofs.Pump.SupplierPump

/-! An outbound pump between any producer and any sink. What its window takes goes to the sink as it is, and the
pump succeeds only when all of it has. -/
namespace Sluice

instance {ι σ : Type} [WindowAccess ι σ] : WindowAccess ι (Chronicle ι σ) where
  window ch c := WindowAccess.window ch c.world
  update ch w c := { c with world := WindowAccess.update ch w c.world }

/-- Behind the end of a stream every write is refused. -/
def Deed.Barred {ι : Type} (before : List (Deed ι)) : Deed ι → Prop
  | wrote _ _ result => (∃ deed ∈ before, deed.tellsEnd = true) → result = .error .writeAfterEnd
  | _ => True

private theorem Window.write_cases (w : Window) (bytes : List UInt8) :
    (w.ended = true ∧ w.write bytes = (.error .writeAfterEnd, w)) ∨
    (w.ended = false ∧ ∃ n ≤ w.size - w.pending.length,
      w.write bytes = (.ok n, { w with pending := w.pending ++ bytes.take n })) := by
  simp only [write]
  split
  next ended => exact .inl ⟨ended, rfl⟩
  next going => exact .inr ⟨Bool.eq_false_iff.mpr going, _, Nat.min_le_left _ _, rfl⟩

namespace Chronicle

/-- A window and the calls on it, of which some bytes have been taken out. What was accepted is those and the ones
that are pending, of which there are never more than the window is wide. -/
structure Accounts (gone : List UInt8) (c : Chronicle Unit Window) : Prop where
  whole : gone ++ c.world.pending = c.output
  room : c.world.pending.length ≤ c.world.size
  ended : c.world.ended = c.told
  barred : Lawful Deed.Barred c.deeds

variable {gone : List UInt8} {c c' : Chronicle Unit Window}

private theorem Accounts.reaches (h : c.Accounts gone) (calls : Reaches Unit c c') : c'.Accounts gone := by
  induction calls with
  | refl => exact h
  | @write c' ch bytes _ ih =>
    rcases c'.world.write_cases bytes with ⟨ended, written⟩ | ⟨going, n, fits, written⟩
    · have same : (Transport.write ch bytes c').2 =
          ⟨c'.world, c'.deeds ++ [.wrote ch bytes (.error .writeAfterEnd)]⟩ := by
        simp only [Transport.write, written]
      rw [same]
      refine ⟨?_, ih.room, ?_, ih.barred.append_one fun _ => rfl⟩
      · simpa [output, delivered, Deed.taken, takenOf] using ih.whole
      · simpa [told, Deed.tellsEnd] using ih.ended
    · have taken : (Transport.write ch bytes c').2 =
          ⟨{ c'.world with pending := c'.world.pending ++ bytes.take n },
            c'.deeds ++ [.wrote ch bytes (.ok n)]⟩ := by
        simp only [Transport.write, written]
      rw [taken]
      refine ⟨?_, ?_, ?_, ih.barred.append_one fun barred => ?_⟩
      · have whole := congrArg (· ++ bytes.take n) ih.whole
        simpa [output, delivered, Deed.taken, takenOf] using whole
      · have room := ih.room
        simp only [List.length_append, List.length_take]
        omega
      · simpa [told, Deed.tellsEnd] using ih.ended
      · -- nobody has told the window of an end, as it is still open
        rw [ih.ended, told, List.any_eq_false] at going
        obtain ⟨deed, there, tells⟩ := barred
        exact absurd tells (going deed there)
  | @requestOutput c' ch _ ih =>
    refine ⟨?_, ih.room, ?_, ih.barred.append_one trivial⟩
    · exact ih.whole.trans (c'.output_requestOutput (some ch)).symm
    · exact ih.ended.trans (c'.told_requestOutput (some ch)).symm
  | @endStream c' ch trailers _ ih =>
    refine ⟨?_, ih.room, ?_, ih.barred.append_one trivial⟩
    · exact ih.whole.trans (c'.output_endStream (some ch) trailers).symm
    · simp [told, Transport.endStream, Window.endStream, Deed.tellsEnd]

private theorem size_reaches (calls : Reaches Unit c c') : c'.world.size = c.world.size := by
  induction calls with
  | refl => rfl
  | @write c' ch bytes _ ih =>
    rw [← ih]
    exact (c'.world.write_spec (some ch) bytes).1
  | requestOutput ch _ ih => exact ih
  | endStream ch trailers _ ih => exact ih

end Chronicle

/-- The stream has ended, and nothing of it is pending. -/
def Window.Drained (w : Window) : Prop := w.ended = true ∧ w.pending = []

private theorem Chronicle.drained_reaches {c c' : Chronicle Unit Window} (drained : c.world.Drained)
    (calls : Reaches Unit c c') : c'.world.Drained ∧ c'.output = c.output := by
  induction calls with
  | refl => exact ⟨drained, rfl⟩
  | @write c' ch bytes _ ih =>
    obtain ⟨⟨ended, empty⟩, same⟩ := ih
    have refused : c'.world.write bytes = (.error .writeAfterEnd, c'.world) := by
      simp [Window.write, ended]
    have output := c'.output_write (some ch) bytes
    have answer : (Transport.write (some ch) bytes c').1 = .error .writeAfterEnd := congrArg Prod.fst refused
    rw [answer, takenOf, List.append_nil] at output
    refine ⟨?_, output.trans same⟩
    rw [show (Transport.write ch bytes c').2.world = c'.world from congrArg Prod.snd refused]
    exact ⟨ended, empty⟩
  | @requestOutput c' ch _ ih => exact ⟨ih.1, (c'.output_requestOutput (some ch)).trans ih.2⟩
  | @endStream c' ch trailers _ ih => exact ⟨⟨rfl, ih.1.2⟩, (c'.output_endStream (some ch) trailers).trans ih.2⟩

/-- What a sink did: it took bytes, or it was flushed. -/
inductive SinkCall
  | took (bytes : List UInt8)
  | flushed

namespace SinkCall

def bytes : SinkCall → List UInt8
  | took bytes => bytes
  | flushed => []

def ofWrite (offered : List UInt8) : Poll (Except Fault Nat) → List SinkCall
  | .ready (.ok n) => [.took (offered.take n)]
  | _ => []

def ofFlush : Poll (Except Fault Unit) → List SinkCall
  | .ready (.ok ()) => [.flushed]
  | _ => []

def taken (sinkCalls : List SinkCall) : List UInt8 := sinkCalls.flatMap bytes

/-- A sink was flushed once, behind everything it took. -/
def Sealed (sinkCalls : List SinkCall) : Prop := ∃ before, sinkCalls = before ++ [.flushed] ∧ .flushed ∉ before

private theorem taken_ofWrite (offered : List UInt8) (result : Except Fault Nat) :
    taken (ofWrite offered (.ready result)) = takenOf offered result := by
  cases result with
  | ok n => simp [ofWrite, taken, bytes, takenOf]
  | error fault => rfl

private theorem not_mem_ofWrite (offered : List UInt8) (answer : Poll (Except Fault Nat)) :
    .flushed ∉ ofWrite offered answer := by
  cases answer with
  | pending => exact List.not_mem_nil
  | ready result =>
    cases result with
    | ok n => simp [ofWrite]
    | error fault => exact List.not_mem_nil

private theorem taken_append (sinkCalls more : List SinkCall) :
    taken (sinkCalls ++ more) = taken sinkCalls ++ taken more :=
  List.flatMap_append

end SinkCall

/-- A sink with a list of what it did. -/
structure RecordingSink (ω : Type) where
  sink : ω
  sinkCalls : List SinkCall

instance {ω : Type} [ByteSink ω] : ByteSink (RecordingSink ω) where
  write r bytes :=
    let (answer, sink) := ByteSink.write r.sink bytes
    (answer, ⟨sink, r.sinkCalls ++ SinkCall.ofWrite bytes answer⟩)
  flush r :=
    let (answer, sink) := ByteSink.flush r.sink
    (answer, ⟨sink, r.sinkCalls ++ SinkCall.ofFlush answer⟩)

namespace Outbound

variable {ι ω : Type}

private theorem outcome_eq_some_iff {pump : Outbound ι ω} {result : Except Fault Nat} :
    pump.outcome? = some result ↔ pump.stage = .finished result := by
  cases stage : pump.stage with
  | _ => simp [outcome?, stage]

private theorem afterChunk_going (contents : Window.Contents) (result : Except Fault Nat) :
    afterChunk contents ≠ .finished result := by
  simp only [afterChunk]
  split
  · exact nofun
  · split
    · exact nofun
    · exact nofun

end Outbound

namespace OutboundStage

/-- What a pump holds in its hands between window and sink. What a pump held that has failed is lost. -/
def Holds (hand : List UInt8) : OutboundStage → Prop
  | sending rest _ => hand = rest
  | finished (.error _) => True
  | _ => hand = []

/-- What a pump has counted and flushed wherever it stands. -/
def Counts (sinkCalls : List SinkCall) (total : Nat) (w : Window) : OutboundStage → Prop
  | starting | producing | taking | listening => .flushed ∉ sinkCalls ∧ total = (SinkCall.taken sinkCalls).length
  | sending rest contents => .flushed ∉ sinkCalls ∧
    total + contents.chunk.length = (SinkCall.taken sinkCalls).length + rest.length ∧
    (contents.ended = true → w.Drained)
  | flushing => .flushed ∉ sinkCalls ∧ total = (SinkCall.taken sinkCalls).length ∧ w.Drained
  | finished (.ok written) => SinkCall.Sealed sinkCalls ∧ written = (SinkCall.taken sinkCalls).length ∧ w.Drained
  | finished (.error _) => .flushed ∉ sinkCalls

private theorem Counts.drains {stage : OutboundStage} {sinkCalls : List SinkCall} {total : Nat} {w w' : Window}
    (h : stage.Counts sinkCalls total w) (drains : w.Drained → w'.Drained) : stage.Counts sinkCalls total w' := by
  cases stage with
  | sending rest contents => exact ⟨h.1, h.2.1, fun ended => drains (h.2.2 ended)⟩
  | flushing => exact ⟨h.1, h.2.1, drains h.2.2⟩
  | finished result =>
    cases result with
    | ok written => exact ⟨h.1, h.2.1, drains h.2.2⟩
    | error fault => exact h
  | _ => exact h

private theorem Counts.succeeds {stage : OutboundStage} {sinkCalls : List SinkCall} {total : Nat} {w : Window}
    (h : stage.Counts sinkCalls total w) (flushed : .flushed ∈ sinkCalls) :
    ∃ written, stage = .finished (.ok written) := by
  cases stage with
  | finished result =>
    cases result with
    | ok written => exact ⟨written, rfl⟩
    | error fault => exact absurd flushed h
  | _ => exact absurd flushed h.1

end OutboundStage

/-- What a pump drives acts on its channel by calls. -/
class CallingOutflow (π ι σ : Type) [Transport ι σ] [Outflow π ι σ] : Prop where
  produce (producer : π) (ch : ι) (s : σ) : Reaches ι s (Outflow.produce producer ch s).2.2

instance {γ κ ι σ τ : Type} [Coder γ κ] [CallingCoder γ] [Transport ι σ] [Source τ κ] :
    CallingOutflow (Producer γ ι τ) ι σ := ⟨Producer.produce_reaches⟩

namespace Outlet

variable {ι σ : Type} [Transport ι σ]

private theorem drain_reaches (outlet : Outlet ι) (ch : ι) (s : σ) : Reaches ι s (outlet.drain ch s).2.2 := by
  have written := Reaches.of_write (some ch) outlet.conduit.bytes s
  simp only [drain]
  split
  · exact .refl
  · split
    next refused =>
      rw [show Transport.write (some ch) outlet.conduit.bytes s = _ from refused] at written
      exact written
    next answered =>
      rw [show Transport.write (some ch) outlet.conduit.bytes s = _ from answered] at written
      exact written

private theorem signal_reaches (outlet : Outlet ι) (ch : ι) (s : σ) : Reaches ι s (outlet.signal ch s).2.2 := by
  simp only [signal]
  split
  · exact Reaches.refl.endStream ch none
  · exact .refl

private theorem flush_reaches (outlet : Outlet ι) (ch : ι) (s : σ) : Reaches ι s (outlet.flush ch s).2.2 := by
  simp only [flush]
  split
  · exact .refl
  · have drained := drain_reaches { outlet with channel := some ch } ch s
    split
    next failed =>
      rw [failed] at drained
      exact drained
    next outlet' s' passed =>
      rw [passed] at drained
      exact drained.trans (outlet'.signal_reaches ch s')

end Outlet

instance {ι σ : Type} [Transport ι σ] : CallingOutflow (Outlet ι) ι σ := ⟨Outlet.flush_reaches⟩

private theorem Exchange.produce_reaches {ι κ σ τ : Type} [Transport ι σ] (x : Exchange ι κ τ) (ch : ι) (s : σ) :
    Reaches ι s (x.produce ch s).2.2 := by
  simp only [produce]
  split
  · exact .refl
  next outlet _ => exact outlet.flush_reaches ch s

instance {ι κ σ τ : Type} [Transport ι σ] : CallingOutflow (Exchange ι κ τ) ι σ := ⟨Exchange.produce_reaches⟩

/-- A pump with its producer and its window. -/
structure OutboundRun (π ω : Type) where
  pump : Outbound Unit (RecordingSink ω)
  producer : π
  window : Chronicle Unit Window

namespace OutboundRun

/-- A step of the pump, a call on the window by somebody else, or a change of the producer or the sink on its
own. -/
inductive Move (π ω : Type)
  | pump
  | write (bytes : List UInt8)
  | ask
  | finish (trailers : Option Http.Headers)
  | become (producer : π)
  | arrive (sink : ω)

variable {π ω : Type}

def start (settings : PumpSettings) (producer : π) (sink : ω) : OutboundRun π ω :=
  ⟨.start settings () ⟨sink, []⟩, producer, .start (.ofSize settings.windowSize)⟩

def taken (d : OutboundRun π ω) : List UInt8 := SinkCall.taken d.pump.sink.sinkCalls

/-- What holds of a pump at all times. -/
structure Sound (settings : PumpSettings) (d : OutboundRun π ω) : Prop where
  settled : d.pump.settings = settings
  size : d.window.world.size = settings.windowSize
  accounts : ∃ hand, d.pump.stage.Holds hand ∧ d.window.Accounts (d.taken ++ hand)
  counts : d.pump.stage.Counts d.pump.sink.sinkCalls d.pump.total d.window.world

private theorem sound_start (settings : PumpSettings) (producer : π) (sink : ω) :
    (start settings producer sink).Sound settings := by
  refine ⟨rfl, rfl, ⟨[], rfl, rfl, Nat.zero_le _, rfl, .nil⟩, List.not_mem_nil, rfl⟩

private theorem Sound.reaches {settings : PumpSettings} {d : OutboundRun π ω} (h : d.Sound settings)
    {window : Chronicle Unit Window} (calls : Reaches Unit d.window window) :
    ({ d with window } : OutboundRun π ω).Sound settings := by
  obtain ⟨hand, holds, accounts⟩ := h.accounts
  refine ⟨h.settled, (Chronicle.size_reaches calls).trans h.size, ⟨hand, holds, accounts.reaches calls⟩, ?_⟩
  exact h.counts.drains fun drained => (Chronicle.drained_reaches drained calls).1

variable [ByteSink ω] [Outflow π Unit (Chronicle Unit Window)]

def step (d : OutboundRun π ω) : Move π ω → OutboundRun π ω
  | .pump =>
    let (_, pump, producer, window) := d.pump.step d.producer d.window
    ⟨pump, producer, window⟩
  | .write bytes => { d with window := (Transport.write () bytes d.window).2 }
  | .ask => { d with window := Transport.requestOutput () d.window }
  | .finish trailers => { d with window := (Transport.endStream () trailers d.window).2 }
  | .become producer => { d with producer }
  | .arrive sink => { d with pump := { d.pump with sink := { d.pump.sink with sink } } }

def run (moves : List (Move π ω)) (d : OutboundRun π ω) : OutboundRun π ω := moves.foldl step d

/-- The next step of the pump meets a fault: its settings are invalid, its producer fails, or its sink does, which
also counts as failed if it takes nothing. -/
def Fails (d : OutboundRun π ω) (fault : Fault) : Prop :=
  match d.pump.stage with
  | .starting => d.pump.settings.validate = .error fault
  | .producing => (Outflow.produce d.producer () d.window).1 = .error fault
  | .sending rest _ => rest ≠ [] ∧ ((ByteSink.write d.pump.sink.sink rest).1 = .ready (.error fault) ∨
    (ByteSink.write d.pump.sink.sink rest).1 = .ready (.ok 0) ∧ fault = .io .writeZero "write zero")
  | .flushing => (ByteSink.flush d.pump.sink.sink).1 = .ready (.error fault)
  | _ => False

private theorem outcome_pump (d : OutboundRun π ω) (fault : Fault) :
    (d.step .pump).pump.outcome? = some (.error fault) ↔
    d.pump.outcome? = some (.error fault) ∨ d.Fails fault := by
  rw [Outbound.outcome_eq_some_iff, Outbound.outcome_eq_some_iff]
  simp only [step, Outbound.step, Fails]
  cases stage : d.pump.stage with
  | starting =>
    cases valid : d.pump.settings.validate with
    | error invalid => simp [Outbound.stop]
    | ok done => simp
  | producing =>
    have same : d.pump.channel = () := rfl
    rw [same]
    generalize Outflow.produce d.producer () d.window = turned
    obtain ⟨failed | done, producer, window⟩ := turned
    · simp [Outbound.stop]
    · simp
  | taking => simp
  | sending rest contents =>
    simp only [Outbound.send, ByteSink.write]
    generalize ByteSink.write d.pump.sink.sink rest = answered
    obtain ⟨answer, sink⟩ := answered
    split
    next sent =>
      have going := Outbound.afterChunk_going contents (.error fault)
      simp [going, List.isEmpty_iff.mp sent]
    next left =>
      have some : rest ≠ [] := fun none => left (List.isEmpty_iff.mpr none)
      cases answer with
      | pending => simp [stage]
      | ready result =>
        rcases result with failed | (_ | n)
        · simp [some]
        · simp [some, eq_comm]
        · simp
  | flushing =>
    simp only [ByteSink.flush]
    generalize ByteSink.flush d.pump.sink.sink = answered
    obtain ⟨answer, sink⟩ := answered
    cases answer with
    | pending => simp
    | ready result =>
      cases result with
      | ok done => simp [Except.map]
      | error failed => simp [Except.map]
  | listening =>
    dsimp only
    split
    · simp
    · simp [stage]
  | finished result => simp [stage]

private theorem outcome_step (d : OutboundRun π ω) (move : Move π ω) (fault : Fault) :
    (d.step move).pump.outcome? = some (.error fault) ↔
      d.pump.outcome? = some (.error fault) ∨ move = .pump ∧ d.Fails fault := by
  cases move with
  | pump => simp [outcome_pump]
  | _ => simp [step, Outbound.outcome?]

private theorem outcome_run (d : OutboundRun π ω) (moves : List (Move π ω)) (fault : Fault) :
    (d.run moves).pump.outcome? = some (.error fault) ↔ d.pump.outcome? = some (.error fault) ∨
      ∃ before after, moves = before ++ .pump :: after ∧ (d.run before).Fails fault :=
  holds_foldl_iff (fun d => d.pump.outcome? = some (.error fault)) (fun d => d.Fails fault) .pump
    (fun d move => outcome_step d move fault) d moves

variable {settings : PumpSettings}

private theorem Sound.sends {d : OutboundRun π ω} (h : d.Sound settings) {rest : List UInt8}
    {contents : Window.Contents}
    (sending : d.pump.stage = .sending rest contents) : (d.step .pump).Sound settings := by
  obtain ⟨settled, size, ⟨hand, holds, accounts⟩, counts⟩ := h
  rw [sending] at holds counts
  obtain ⟨unflushed, total, drained⟩ := counts
  obtain rfl : hand = rest := holds
  simp only [OutboundRun.step, Outbound.step, sending, Outbound.send]
  split
  next sent =>
    obtain rfl : hand = [] := List.isEmpty_iff.mp sent
    simp only [Outbound.afterChunk]
    split
    next ended => exact ⟨settled, size, ⟨[], rfl, accounts⟩, unflushed, total, drained ended⟩
    · split
      · exact ⟨settled, size, ⟨[], rfl, accounts⟩, unflushed, total⟩
      · exact ⟨settled, size, ⟨[], rfl, accounts⟩, unflushed, total⟩
  next some =>
    simp only [ByteSink.write]
    generalize ByteSink.write d.pump.sink.sink hand = answered
    obtain ⟨answer, sink⟩ := answered
    have unflushed' : .flushed ∉ d.pump.sink.sinkCalls ++ SinkCall.ofWrite hand answer := by
      rw [List.mem_append, not_or]
      exact ⟨unflushed, SinkCall.not_mem_ofWrite hand answer⟩
    have taken : ∀ result, SinkCall.taken (d.pump.sink.sinkCalls ++ SinkCall.ofWrite hand (.ready result)) =
        d.taken ++ takenOf hand result := fun result => by
      rw [SinkCall.taken_append, SinkCall.taken_ofWrite, OutboundRun.taken]
    -- what the sink takes goes from the hand to what it took
    split
    next pending =>
      obtain ⟨rfl, rfl⟩ := Prod.mk.inj pending
      simp only [SinkCall.ofWrite, List.append_nil]
      exact ⟨settled, size, ⟨hand, rfl, accounts⟩, unflushed, total, drained⟩
    next failed =>
      obtain ⟨rfl, rfl⟩ := Prod.mk.inj failed
      refine ⟨settled, size, ⟨hand, trivial, ?_⟩, unflushed'⟩
      simpa only [OutboundRun.taken, taken, takenOf, List.append_nil] using accounts
    next nothing =>
      obtain ⟨rfl, rfl⟩ := Prod.mk.inj nothing
      refine ⟨settled, size, ⟨hand, trivial, ?_⟩, unflushed'⟩
      simpa only [OutboundRun.taken, taken, takenOf, List.take_zero, List.append_nil] using accounts
    next n _ _ took =>
      obtain ⟨rfl, rfl⟩ := Prod.mk.inj took
      refine ⟨settled, size, ⟨hand.drop n, rfl, ?_⟩, unflushed', ?_, drained⟩
      · simpa only [OutboundRun.taken, taken, takenOf, List.append_assoc, List.take_append_drop] using accounts
      · simp only [taken, takenOf, List.length_append, List.length_take, List.length_drop]
        simp only [OutboundRun.taken]
        omega

private theorem Sound.takes {d : OutboundRun π ω} (h : d.Sound settings) (taking : d.pump.stage = .taking) :
    (d.step .pump).Sound settings := by
  obtain ⟨settled, size, ⟨hand, holds, accounts⟩, counts⟩ := h
  rw [taking] at holds counts
  obtain rfl : hand = [] := holds
  rw [List.append_nil] at accounts
  simp only [OutboundRun.step, Outbound.step, taking]
  refine ⟨settled, size, ⟨d.window.world.pending, rfl, ?_, Nat.zero_le _, accounts.ended, accounts.barred⟩, ?_⟩
  · exact (List.append_nil _).trans accounts.whole
  · refine ⟨counts.1, ?_, fun ended => ⟨ended, rfl⟩⟩
    exact congrArg (· + d.window.world.pending.length) counts.2

private theorem Sound.flushes {d : OutboundRun π ω} (h : d.Sound settings) (flushing : d.pump.stage = .flushing) :
    (d.step .pump).Sound settings := by
  obtain ⟨settled, size, ⟨hand, holds, accounts⟩, counts⟩ := h
  rw [flushing] at holds counts
  obtain ⟨unflushed, total, drained⟩ := counts
  obtain rfl : hand = [] := holds
  simp only [OutboundRun.step, Outbound.step, flushing, ByteSink.flush]
  generalize ByteSink.flush d.pump.sink.sink = answered
  obtain ⟨answer, sink⟩ := answered
  split
  next pending =>
    obtain ⟨rfl, rfl⟩ := Prod.mk.inj pending
    simp only [SinkCall.ofFlush, List.append_nil]
    exact ⟨settled, size, ⟨[], rfl, accounts⟩, unflushed, total, drained⟩
  next result _ ready =>
    obtain ⟨rfl, rfl⟩ := Prod.mk.inj ready
    cases result with
    | error fault =>
      simp only [SinkCall.ofFlush, List.append_nil]
      exact ⟨settled, size, ⟨[], trivial, accounts⟩, unflushed⟩
    | ok done =>
      have taken : SinkCall.taken (d.pump.sink.sinkCalls ++ [.flushed]) = SinkCall.taken d.pump.sink.sinkCalls := by
        simp [SinkCall.taken, SinkCall.bytes]
      refine ⟨settled, size, ⟨[], rfl, ?_⟩, ⟨_, rfl, unflushed⟩, ?_, drained⟩
      · simpa only [OutboundRun.taken, SinkCall.ofFlush, taken] using accounts
      · simpa only [SinkCall.ofFlush, taken] using total

private theorem Sound.listens {d : OutboundRun π ω} (h : d.Sound settings) (listening : d.pump.stage = .listening) :
    (d.step .pump).Sound settings := by
  obtain ⟨settled, size, ⟨hand, held, accounts⟩, counted⟩ := h
  have holds := held
  have counts := counted
  rw [listening] at holds counts
  have rung : ∀ bell, ({ d.window with world := { d.window.world with bell } } : Chronicle Unit Window).Accounts
      (d.taken ++ hand) := fun bell => ⟨accounts.whole, accounts.room, accounts.ended, accounts.barred⟩
  simp only [OutboundRun.step, Outbound.step, listening]
  split
  · exact ⟨settled, size, ⟨hand, holds, rung _⟩, counts⟩
  · exact ⟨settled, size, ⟨hand, held, rung _⟩, counted⟩

variable [CallingOutflow π Unit (Chronicle Unit Window)]

private theorem Sound.turns {d : OutboundRun π ω} (h : d.Sound settings) (producing : d.pump.stage = .producing) :
    (d.step .pump).Sound settings := by
  have called := CallingOutflow.produce d.producer d.pump.channel d.window
  obtain ⟨settled, size, ⟨hand, holds, accounts⟩, counts⟩ := h
  rw [producing] at holds counts
  have size' := (Chronicle.size_reaches called).trans size
  have accounts' := accounts.reaches called
  simp only [OutboundRun.step, Outbound.step, producing]
  split
  next failed =>
    rw [failed] at size' accounts'
    exact ⟨settled, size', ⟨hand, trivial, accounts'⟩, counts.1⟩
  next passed =>
    rw [passed] at size' accounts'
    exact ⟨settled, size', ⟨hand, holds, accounts'⟩, counts⟩

theorem Sound.pump {d : OutboundRun π ω} (h : d.Sound settings) : (d.step .pump).Sound settings := by
  cases stage : d.pump.stage with
  | starting =>
    obtain ⟨settled, size, ⟨hand, holds, accounts⟩, counts⟩ := h
    rw [stage] at holds counts
    simp only [OutboundRun.step, Outbound.step, stage]
    split
    · exact ⟨settled, size, ⟨hand, trivial, accounts⟩, counts.1⟩
    · exact ⟨settled, size, ⟨hand, holds, accounts⟩, counts⟩
  | producing => exact h.turns stage
  | taking => exact h.takes stage
  | sending rest contents => exact h.sends stage
  | flushing => exact h.flushes stage
  | listening => exact h.listens stage
  | finished result =>
    simp only [OutboundRun.step, Outbound.step, stage]
    exact h

theorem Sound.step {d : OutboundRun π ω} (h : d.Sound settings) (move : Move π ω) : (d.step move).Sound settings := by
  cases move with
  | pump => exact h.pump
  | write bytes => exact h.reaches (.of_write (some ()) bytes d.window)
  | ask => exact h.reaches (.of_requestOutput (some ()) d.window)
  | finish trailers => exact h.reaches (Reaches.refl.endStream () trailers)
  | become producer => exact ⟨h.settled, h.size, h.accounts, h.counts⟩
  | arrive sink => exact ⟨h.settled, h.size, h.accounts, h.counts⟩

theorem Sound.run {d : OutboundRun π ω} (h : d.Sound settings) (moves : List (Move π ω)) :
    (d.run moves).Sound settings := by
  induction moves generalizing d with
  | nil => exact h
  | cons move rest ih => exact ih (h.step move)

end OutboundRun

/-- A pump with any producer that acts on its channel by calls, any sink and any window, in which others may call at
any time. What the sink took, what the pump holds in its hands and what is pending in the window make up what the
window has accepted, also in the midst of a turn, and there is never more pending than the window is wide. A pump
that succeeds was told of the end, its sink has all that was accepted and was flushed behind that, once, and nothing
is accepted any more. A pump fails with the first fault that its producer or its sink meets, and with no other. -/
theorem outbound_pump_exact {π ω : Type} [ByteSink ω] [Outflow π Unit (Chronicle Unit Window)]
    [CallingOutflow π Unit (Chronicle Unit Window)] (settings : PumpSettings) (producer : π) (sink : ω)
    (moves : List (OutboundRun.Move π ω)) :
    let first := OutboundRun.start settings producer sink
    let d := first.run moves
    (∃ hand, d.pump.stage.Holds hand ∧ ∀ c, Reaches Unit d.window c →
      d.taken ++ hand ++ c.world.pending = c.output ∧
      c.world.size = settings.windowSize ∧ c.world.pending.length ≤ c.world.size ∧
      Lawful Deed.Barred c.deeds) ∧
    (∀ total, d.pump.outcome? = some (.ok total) →
      d.window.told = true ∧ total = d.taken.length ∧ SinkCall.Sealed d.pump.sink.sinkCalls ∧
      ∀ c, Reaches Unit d.window c → c.output = d.taken) ∧
    (.flushed ∈ d.pump.sink.sinkCalls → ∃ total, d.pump.outcome? = some (.ok total)) ∧
    ∀ fault, d.pump.outcome? = some (.error fault) ↔
      ∃ before after, moves = before ++ .pump :: after ∧ (first.run before).Fails fault := by
  intro first d
  have sound : d.Sound settings := (OutboundRun.sound_start settings producer sink).run moves
  obtain ⟨_, size, ⟨hand, holds, accounts⟩, counts⟩ := sound
  refine ⟨⟨hand, holds, fun c calls => ?_⟩, fun total done => ?_, fun flushed => ?_, fun fault => ?_⟩
  · have later := accounts.reaches calls
    exact ⟨later.whole, (Chronicle.size_reaches calls).trans size, later.room, later.barred⟩
  · have closed := Outbound.outcome_eq_some_iff.mp done
    rw [closed] at holds counts
    obtain ⟨sealed, written, drained⟩ := counts
    obtain rfl : hand = [] := holds
    have whole := accounts.whole
    rw [drained.2, List.append_nil, List.append_nil] at whole
    refine ⟨accounts.ended.symm.trans drained.1, written, sealed, fun c calls => ?_⟩
    exact (Chronicle.drained_reaches drained calls).2.trans whole.symm
  · obtain ⟨total, closed⟩ := counts.succeeds flushed
    exact ⟨total, Outbound.outcome_eq_some_iff.mpr closed⟩
  · refine (first.outcome_run moves fault).trans (or_iff_right ?_)
    exact nofun

/-- A producer with five bytes in front of a window for three and a sink that takes two at once. Somebody writes to
the window between the turns, and again when all is over. Another sink breaks behind its third byte. -/
theorem outbound_pump_exact_between :
    let source : Script (List UInt8) := .ofActions [.write [1, 2, 3, 4, 5], .endStream]
    let p : Producer BinaryCoder Unit (Script (List UInt8)) := ⟨.initial 4 .initial, source, 2, none⟩
    let sink (failAfter : Option Nat) : PlayedSink := .ofManner ⟨some 2, failAfter, false, false⟩
    let moves : List (OutboundRun.Move (Producer BinaryCoder Unit (Script (List UInt8))) PlayedSink) :=
      .replicate 3 .pump ++ .write [9] :: .replicate 12 .pump ++ [.write [7]]
    let d := (OutboundRun.start ⟨3, 1⟩ p (sink none)).run moves
    let broken := (OutboundRun.start ⟨3, 1⟩ p (sink (some 3))).run moves
    Producer.binary ⟨4, none⟩ none source = .ok p ∧
      CallingOutflow (Producer BinaryCoder Unit (Script (List UInt8))) Unit (Chronicle Unit Window) ∧
      d.pump.outcome? = some (.ok 6) ∧ d.taken = [1, 2, 3, 9, 4, 5] ∧ d.window.output = d.taken ∧
      broken.pump.outcome? = some (.error (.io .brokenPipe "peer gone")) ∧ broken.taken = [1, 2, 3] ∧
      ∃ hand, [1, 2, 3] ++ hand ++ broken.window.world.pending = broken.window.output := by
  intro source p sink moves d broken
  have done : d.pump.outcome? = some (.ok 6) := by decide +kernel
  have took : broken.taken = [1, 2, 3] := by decide +kernel
  obtain ⟨_, succeeds, _, _⟩ := outbound_pump_exact ⟨3, 1⟩ p (sink none) moves
  obtain ⟨⟨hand, _, whole⟩, _, _, _⟩ := outbound_pump_exact ⟨3, 1⟩ p (sink (some 3)) moves
  have failed : broken.pump.outcome? = some (.error (.io .brokenPipe "peer gone")) := by decide +kernel
  refine ⟨rfl, inferInstance, done, by decide +kernel, ?_, failed, took, hand, ?_⟩
  · exact (succeeds 6 done).2.2.2 d.window .refl
  · rw [← took]
    exact (whole broken.window .refl).1

end Sluice

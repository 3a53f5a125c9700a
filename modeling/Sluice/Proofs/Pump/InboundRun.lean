import Sluice.Bench.Peer
import Sluice.Exchange
import Sluice.Proofs.Inlet.Sections
import Sluice.Pump.Inbound

/-! An inbound pump between any consumer and a reader whose bytes are settled. Every byte is offered until it is
taken, and no byte is offered again after that. -/
namespace Sluice

/-- A consumer that answers with the length of the prefix it took. -/
class HonestInflow (π κ σ : Type) [Inflow π κ σ] : Prop where
  consume (consumer : π) (bytes : List UInt8) (s : σ) (n : Nat) :
    (Inflow.consume κ consumer bytes s).1 = .ok n → n ≤ bytes.length

instance {κ σ : Type} [CapacityChannel κ σ] : HonestInflow (Inlet κ) κ σ where
  consume inlet bytes _ := (inlet.fill_spec bytes).1

instance {ι κ σ τ : Type} [CapacityChannel κ σ] : HonestInflow (Exchange ι κ τ) κ σ where
  consume x bytes s n answered := by
    simp only [Inflow.consume, Exchange.consume] at answered
    split at answered
    · cases answered
    next inlet _ => exact (inlet.fill_spec bytes).1 n answered

/-- What a read does to the bytes that are still to come. -/
def Delivers (answer : Poll (Except Fault (List UInt8))) (before after : List UInt8) : Prop :=
  match answer with
  | .pending => before = after
  | .ready (.ok []) => before = []
  | .ready (.ok chunk) => before = chunk ++ after
  | .ready (.error _) => before = []

/-- A reader whose bytes are settled: those that it gives until it ends or fails. -/
class SettledReader (ρ : Type) [ByteReader ρ] where
  content : ρ → List UInt8
  read (reader : ρ) (room : Nat) : 0 < room →
    Delivers (ByteReader.read reader room).1 (content reader) (content (ByteReader.read reader room).2)

namespace PlayedReader

/-- The bytes in front of the first fault. -/
def contentOf : List ReaderItem → List UInt8
  | [] => []
  | .bytes bytes :: items => bytes ++ contentOf items
  | .pending :: items => contentOf items
  | .fail :: _ => []

private theorem delivers_readItems {room : Nat} (some : 0 < room) (items : List ReaderItem) :
    Delivers (readItems room items).1 (contentOf items) (contentOf (readItems room items).2) := by
  fun_induction readItems room items with
  | case1 => rfl
  | case2 => rfl
  | case3 => rfl
  | case4 items ih => exact ih
  | case5 bytes items loaded =>
    obtain ⟨byte, rest, rfl⟩ := List.exists_cons_of_ne_nil loaded
    obtain ⟨n, rfl⟩ := Nat.exists_eq_add_of_lt some
    change byte :: rest ++ contentOf items = (byte :: rest).take _ ++ contentOf (if _ then _ else _)
    split
    next whole => rw [List.take_of_length_le whole]
    next => rw [contentOf, ← List.append_assoc, List.take_append_drop]

instance : SettledReader PlayedReader where
  content reader := contentOf reader.items
  read reader _ some := delivers_readItems some reader.items

end PlayedReader

/-- A call on a consumer and its result. -/
inductive ConsumerCall
  | registered (result : Except Fault Unit)
  | offered (bytes : List UInt8) (result : Except Fault Nat)
  | ended (result : Except Fault Unit)

namespace ConsumerCall

def taken : ConsumerCall → List UInt8
  | offered bytes result => takenOf bytes result
  | _ => []

def isEnd : ConsumerCall → Bool
  | ended _ => true
  | _ => false

def accepted (calls : List ConsumerCall) : List UInt8 := calls.flatMap taken

def Untold (calls : List ConsumerCall) : Prop := ∀ call ∈ calls, call.isEnd = false

/-- The consumer was told of the end once, behind everything else. -/
def Told (calls : List ConsumerCall) (result : Except Fault Unit) : Prop :=
  ∃ before, calls = before ++ [.ended result] ∧ Untold before

private theorem accepted_concat (calls : List ConsumerCall) (call : ConsumerCall) :
    accepted (calls ++ [call]) = accepted calls ++ call.taken := by
  simp [accepted]

private theorem accepted_idle (calls : List ConsumerCall) {call : ConsumerCall} (idle : call.taken = []) :
    accepted (calls ++ [call]) = accepted calls := by
  rw [accepted_concat, idle, List.append_nil]

private theorem Untold.concat {calls : List ConsumerCall} (h : Untold calls) (call : ConsumerCall)
    (other : call.isEnd = false) : Untold (calls ++ [call]) := by
  intro e there
  rcases List.mem_append.mp there with old | new
  · exact h e old
  · exact List.mem_singleton.mp new ▸ other

end ConsumerCall

/-- A consumer with a record of the calls on it. -/
structure RecordingConsumer (π : Type) where
  consumer : π
  calls : List ConsumerCall

instance {π κ σ : Type} [Inflow π κ σ] : Inflow (RecordingConsumer π) κ σ where
  updateCapacity a ch s :=
    let (result, consumer, s) := Inflow.updateCapacity a.consumer ch s
    (result, ⟨consumer, a.calls ++ [.registered result]⟩, s)
  consume a bytes s :=
    let (result, consumer, s) := Inflow.consume κ a.consumer bytes s
    (result, ⟨consumer, a.calls ++ [.offered bytes result]⟩, s)
  streamEnd a s :=
    let (result, consumer, s) := Inflow.streamEnd κ a.consumer s
    (result, ⟨consumer, a.calls ++ [.ended result]⟩, s)

private theorem Inbound.outcome_eq_some_iff {κ ρ : Type} {pump : Inbound κ ρ} {result : Except Fault Nat} :
    pump.outcome? = some result ↔ pump.stage = .finished result := by
  cases stage : pump.stage with
  | _ => simp [outcome?, stage]

namespace InboundStage

/-- What a pump holds in its hands between reader and consumer. -/
def hand : InboundStage → List UInt8
  | offering chunk | listening chunk => chunk
  | _ => []

open ConsumerCall (accepted Untold Told)

/-- What a pump has done wherever it stands, with the calls on its consumer, the bytes that the reader had from the
start and those that it still has. -/
def Tallies (settings : PumpSettings) (calls : List ConsumerCall) (whole left : List UInt8) : InboundStage → Prop
  | starting => Untold calls ∧ accepted calls ++ left = whole
  | reading => 0 < settings.readChunk ∧ Untold calls ∧ accepted calls ++ left = whole
  | offering chunk | listening chunk =>
    0 < settings.readChunk ∧ Untold calls ∧ accepted calls ++ (chunk ++ left) = whole
  | finished (.ok total) => Told calls (.ok ()) ∧ accepted calls = whole ∧ total = (accepted calls).length
  | finished (.error fault) => (Untold calls ∨ Told calls (.error fault)) ∧ accepted calls <+: whole

variable {settings : PumpSettings} {calls : List ConsumerCall} {whole left : List UInt8} {stage : InboundStage}

private theorem Tallies.accepted (h : stage.Tallies settings calls whole left) : accepted calls <+: whole := by
  cases stage with
  | starting => exact ⟨_, h.2⟩
  | reading => exact ⟨_, h.2.2⟩
  | offering chunk => exact ⟨_, h.2.2⟩
  | listening chunk => exact ⟨_, h.2.2⟩
  | finished result =>
    cases result with
    | ok total => exact h.2.1 ▸ List.prefix_rfl
    | error fault => exact h.2

private theorem Tallies.going (h : stage.Tallies settings calls whole left)
    (going : ∀ result, stage ≠ .finished result) :
    Untold calls ∧ ConsumerCall.accepted calls ++ (stage.hand ++ left) = whole := by
  cases stage with
  | starting => exact h
  | reading => exact h.2
  | offering chunk => exact h.2
  | listening chunk => exact h.2
  | finished result => exact absurd rfl (going result)

end InboundStage

/-- A pump with its reader, its consumer and the world of that. -/
structure InboundRun (π σ ρ : Type) where
  pump : Inbound Unit ρ
  consumer : RecordingConsumer π
  world : σ

namespace InboundRun

variable {π σ ρ : Type}

/-- A step of the pump, or what others make of the consumer and the world, which may ring for the pump. -/
inductive Move (π σ : Type)
  | pump
  | become (consumer : π) (world : σ)

def start (settings : PumpSettings) (reader : ρ) (consumer : π) (world : σ) : InboundRun π σ ρ :=
  ⟨.start settings () reader, ⟨consumer, []⟩, world⟩

def calls (d : InboundRun π σ ρ) : List ConsumerCall := d.consumer.calls

def accepted (d : InboundRun π σ ρ) : List UInt8 := ConsumerCall.accepted d.calls

variable [Inflow π Unit σ] [BellAccess Unit σ] [ByteReader ρ]

def step (d : InboundRun π σ ρ) : Move π σ → InboundRun π σ ρ
  | .pump =>
    let (_, pump, consumer, world) := d.pump.step d.consumer d.world
    ⟨pump, consumer, world⟩
  | .become consumer world => { d with consumer := { d.consumer with consumer }, world }

def run (moves : List (Move π σ)) (d : InboundRun π σ ρ) : InboundRun π σ ρ := moves.foldl step d

/-- The next step of the pump meets a fault: its settings are invalid, its reader fails, or its consumer does. -/
def Fails (d : InboundRun π σ ρ) (fault : Fault) : Prop :=
  match d.pump.stage with
  | .starting => d.pump.settings.validate = .error fault ∨ d.pump.settings.validate = .ok () ∧
    (Inflow.updateCapacity d.consumer.consumer () d.world).1 = .error fault
  | .reading =>
    (ByteReader.read d.pump.reader d.pump.settings.readChunk).1 = .ready (.error fault) ∨
    (ByteReader.read d.pump.reader d.pump.settings.readChunk).1 = .ready (.ok []) ∧
      (Inflow.streamEnd Unit d.consumer.consumer d.world).1 = .error fault
  | .offering chunk => chunk ≠ [] ∧ (Inflow.consume Unit d.consumer.consumer chunk d.world).1 = .error fault
  | _ => False

private theorem outcome_pump (d : InboundRun π σ ρ) (fault : Fault) :
    (d.step .pump).pump.outcome? = some (.error fault) ↔
    d.pump.outcome? = some (.error fault) ∨ d.Fails fault := by
  rw [Inbound.outcome_eq_some_iff, Inbound.outcome_eq_some_iff]
  simp only [step, Inbound.step, Fails]
  cases stage : d.pump.stage with
  | starting =>
    cases valid : d.pump.settings.validate with
    | error invalid => simp [Inbound.stop]
    | ok done =>
      have same : d.pump.capacity = () := rfl
      simp only [Inflow.updateCapacity, same]
      generalize Inflow.updateCapacity d.consumer.consumer () d.world = called
      obtain ⟨failed | done, consumer, world⟩ := called
      · simp [Inbound.stop]
      · simp
  | reading =>
    generalize ByteReader.read d.pump.reader d.pump.settings.readChunk = answered
    obtain ⟨answer, reader⟩ := answered
    cases answer with
    | pending => simp
    | ready result =>
      rcases result with failed | (_ | ⟨byte, chunk⟩)
      · simp
      · simp only [Inflow.streamEnd]
        generalize Inflow.streamEnd Unit d.consumer.consumer d.world = called
        obtain ⟨failed | done, consumer, world⟩ := called
        · simp
        · simp
      · simp
  | offering chunk =>
    cases chunk with
    | nil => simp
    | cons byte chunk =>
      simp only [Inflow.consume]
      generalize Inflow.consume Unit d.consumer.consumer (byte :: chunk) d.world = called
      obtain ⟨failed | (_ | n), consumer, world⟩ := called
      · simp [Inbound.stop]
      · simp
      · simp
  | listening chunk =>
    dsimp only
    split
    · simp
    · simp [stage]
  | finished result => simp [stage]

private theorem outcome_step (d : InboundRun π σ ρ) (move : Move π σ) (fault : Fault) :
    (d.step move).pump.outcome? = some (.error fault) ↔
      d.pump.outcome? = some (.error fault) ∨ move = .pump ∧ d.Fails fault := by
  cases move with
  | pump => simp [outcome_pump]
  | become consumer world => simp [step]

private theorem outcome_run (d : InboundRun π σ ρ) (moves : List (Move π σ)) (fault : Fault) :
    (d.run moves).pump.outcome? = some (.error fault) ↔ d.pump.outcome? = some (.error fault) ∨
      ∃ before after, moves = before ++ .pump :: after ∧ (d.run before).Fails fault :=
  holds_foldl_iff (fun d => d.pump.outcome? = some (.error fault)) (fun d => d.Fails fault) .pump
    (fun d move => outcome_step d move fault) d moves

private theorem run_closed {d : InboundRun π σ ρ} {result : Except Fault Nat} (closed : d.pump.outcome? = some result)
    (moves : List (Move π σ)) :
    (d.run moves).pump = d.pump ∧ (d.run moves).calls = d.calls := by
  induction moves generalizing d with
  | nil => exact ⟨rfl, rfl⟩
  | cons move rest ih =>
    have same : (d.step move).pump = d.pump ∧ (d.step move).calls = d.calls := by
      cases move with
      | pump => simp [step, calls, Inbound.step, Inbound.outcome_eq_some_iff.mp closed]
      | become consumer world => exact ⟨rfl, rfl⟩
    have closed' : (d.step move).pump.outcome? = some result := by
      rw [same.1]
      exact closed
    obtain ⟨pump, calls⟩ := ih closed'
    exact ⟨pump.trans same.1, calls.trans same.2⟩

variable [SettledReader ρ]

open SettledReader (content)

/-- What holds of a pump at all times, with the reader it had at first. -/
structure Sound (settings : PumpSettings) (reader : ρ) (d : InboundRun π σ ρ) : Prop where
  settled : d.pump.settings = settings
  total : d.pump.total = d.accepted.length
  tallies : d.pump.stage.Tallies settings d.calls (content reader) (content d.pump.reader)

omit [Inflow π Unit σ] [BellAccess Unit σ] in
private theorem sound_start (settings : PumpSettings) (reader : ρ) (consumer : π) (world : σ) :
    (start settings reader consumer world).Sound settings reader :=
  ⟨rfl, rfl, fun _ there => absurd there List.not_mem_nil, rfl⟩

variable {settings : PumpSettings} {reader : ρ}

private theorem Sound.registers {d : InboundRun π σ ρ} (h : d.Sound settings reader)
    (starting : d.pump.stage = .starting) :
    (d.step .pump).Sound settings reader := by
  obtain ⟨settled, total, tallies⟩ := h
  rw [starting] at tallies
  obtain ⟨untold, whole⟩ := tallies
  simp only [InboundRun.step, Inbound.step, starting]
  cases valid : d.pump.settings.validate with
  | error fault => exact ⟨settled, total, .inl untold, _, whole⟩
  | ok done =>
    have room : 0 < settings.readChunk := by
      refine Nat.pos_of_ne_zero fun zero => ?_
      simp [PumpSettings.validate, settled, zero] at valid
    simp only [Inflow.updateCapacity]
    generalize Inflow.updateCapacity d.consumer.consumer d.pump.capacity d.world = called
    obtain ⟨result, consumer, world⟩ := called
    have untold' := untold.concat (.registered result) rfl
    have same : ConsumerCall.accepted (d.consumer.calls ++ [.registered result]) = d.accepted :=
      ConsumerCall.accepted_idle _ rfl
    rw [← same] at total
    rw [← InboundRun.accepted, ← same] at whole
    cases result with
    | error fault => exact ⟨settled, total, .inl untold', _, whole⟩
    | ok done => exact ⟨settled, total, room, untold', whole⟩

private theorem Sound.ends {d : InboundRun π σ ρ} (h : d.Sound settings reader) (reading : d.pump.stage = .reading)
    (ended : (ByteReader.read d.pump.reader d.pump.settings.readChunk).1 = .ready (.ok [])) :
    (d.step .pump).Sound settings reader := by
  obtain ⟨settled, total, tallies⟩ := h
  rw [reading] at tallies
  obtain ⟨room, untold, whole⟩ := tallies
  have delivers := SettledReader.read d.pump.reader d.pump.settings.readChunk (settled ▸ room)
  simp only [InboundRun.step, Inbound.step, reading]
  generalize ByteReader.read d.pump.reader d.pump.settings.readChunk = answered at delivers ended
  obtain ⟨_, reader'⟩ := answered
  obtain rfl := ended
  have empty : content d.pump.reader = [] := delivers
  rw [empty, List.append_nil] at whole
  simp only [Inflow.streamEnd]
  generalize Inflow.streamEnd Unit d.consumer.consumer d.world = called
  obtain ⟨result, consumer, world⟩ := called
  have same : ConsumerCall.accepted (d.consumer.calls ++ [.ended result]) = d.accepted :=
    ConsumerCall.accepted_idle _ rfl
  rw [← same] at total
  rw [← InboundRun.accepted, ← same] at whole
  cases result with
  | error fault => exact ⟨settled, total, .inr ⟨_, rfl, untold⟩, whole ▸ List.prefix_rfl⟩
  | ok done => exact ⟨settled, total, ⟨_, rfl, untold⟩, whole, total⟩

private theorem Sound.reads {d : InboundRun π σ ρ} (h : d.Sound settings reader) (reading : d.pump.stage = .reading)
    (more : (ByteReader.read d.pump.reader d.pump.settings.readChunk).1 ≠ .ready (.ok [])) :
    (d.step .pump).Sound settings reader := by
  obtain ⟨settled, total, tallies⟩ := h
  rw [reading] at tallies
  obtain ⟨room, untold, whole⟩ := tallies
  have delivers := SettledReader.read d.pump.reader d.pump.settings.readChunk (settled ▸ room)
  simp only [InboundRun.step, Inbound.step, reading]
  generalize ByteReader.read d.pump.reader d.pump.settings.readChunk = answered at delivers more
  obtain ⟨answer, reader'⟩ := answered
  cases answer with
  | pending =>
    have left : content d.pump.reader = content reader' := delivers
    rw [left] at whole
    exact ⟨settled, total, room, untold, whole⟩
  | ready result =>
    rcases result with fault | (_ | ⟨byte, chunk⟩)
    · exact ⟨settled, total, .inl untold, _, whole⟩
    · exact absurd rfl more
    · have cut : content d.pump.reader = byte :: chunk ++ content reader' := delivers
      rw [cut] at whole
      exact ⟨settled, total, room, untold, whole⟩

variable [HonestInflow π Unit σ]

private theorem Sound.offers {d : InboundRun π σ ρ} (h : d.Sound settings reader) {chunk : List UInt8}
    (offering : d.pump.stage = .offering chunk) : (d.step .pump).Sound settings reader := by
  obtain ⟨settled, total, tallies⟩ := h
  rw [offering] at tallies
  obtain ⟨room, untold, whole⟩ := tallies
  simp only [InboundRun.step, Inbound.step, offering]
  cases chunk with
  | nil => exact ⟨settled, total, room, untold, whole⟩
  | cons byte chunk =>
    have honest := HonestInflow.consume (κ := Unit) d.consumer.consumer (byte :: chunk) d.world
    simp only [Inflow.consume]
    generalize Inflow.consume Unit d.consumer.consumer (byte :: chunk) d.world = called at honest
    obtain ⟨result, consumer, world⟩ := called
    have untold' := untold.concat (.offered (byte :: chunk) result) rfl
    have more : ConsumerCall.accepted (d.consumer.calls ++ [.offered (byte :: chunk) result]) =
      d.accepted ++ takenOf (byte :: chunk) result := ConsumerCall.accepted_concat _ _
    rcases result with fault | (_ | n)
    · rw [takenOf, List.append_nil] at more
      rw [← more] at total
      rw [← InboundRun.accepted, ← more] at whole
      exact ⟨settled, total, .inl untold', _, whole⟩
    · rw [takenOf, List.take_zero, List.append_nil] at more
      rw [← more] at total
      rw [← InboundRun.accepted, ← more] at whole
      exact ⟨settled, total, room, untold', whole⟩
    · have grown : d.pump.total + (n + 1) =
          (ConsumerCall.accepted (d.consumer.calls ++ [.offered (byte :: chunk) (.ok (n + 1))])).length := by
        rw [more, takenOf, List.length_append, List.length_take, ← total, Nat.min_eq_left (honest (n + 1) rfl)]
      refine ⟨settled, grown, room, untold', ?_⟩
      rw [← InboundRun.accepted, ← List.take_append_drop (n + 1) (byte :: chunk)] at whole
      rw [List.append_assoc, ← List.append_assoc d.accepted] at whole
      exact (congrArg (· ++ _) more).trans whole

theorem Sound.pump {d : InboundRun π σ ρ} (h : d.Sound settings reader) : (d.step .pump).Sound settings reader := by
  cases stage : d.pump.stage with
  | starting => exact h.registers stage
  | reading =>
    by_cases ended : (ByteReader.read d.pump.reader d.pump.settings.readChunk).1 = .ready (.ok [])
    · exact h.ends stage ended
    · exact h.reads stage ended
  | offering chunk => exact h.offers stage
  | listening chunk =>
    obtain ⟨settled, total, tallied⟩ := h
    have tallies := tallied
    rw [stage] at tallies
    simp only [InboundRun.step, Inbound.step, stage]
    split
    · exact ⟨settled, total, tallies⟩
    · exact ⟨settled, total, tallied⟩
  | finished result =>
    simp only [InboundRun.step, Inbound.step, stage]
    exact h

theorem Sound.step {d : InboundRun π σ ρ} (h : d.Sound settings reader) (move : Move π σ) :
    (d.step move).Sound settings reader := by
  cases move with
  | pump => exact h.pump
  | become consumer world => exact ⟨h.settled, h.total, h.tallies⟩

theorem Sound.run {d : InboundRun π σ ρ} (h : d.Sound settings reader) (moves : List (Move π σ)) :
    (d.run moves).Sound settings reader := by
  induction moves generalizing d with
  | nil => exact h
  | cons move rest ih => exact ih (h.step move)

end InboundRun

/-- A pump between any consumer that answers with the length of the prefix it took, on which others act at any time,
and a reader whose bytes are settled. The consumer has taken a front of these, as many as the pump has counted, and
as long as the pump goes on, what it has in hand and what the reader still has follow on that. A pump that succeeds
has delivered all of them and has told the end once, behind the last of them. A pump fails with the first fault that
its reader or its consumer meets, and with no other, without having told the end, unless that was what failed. A pump
that is over does not call its consumer any more. -/
theorem inbound_pump_exact {π σ ρ : Type} [Inflow π Unit σ] [BellAccess Unit σ] [HonestInflow π Unit σ]
    [ByteReader ρ] [SettledReader ρ] (settings : PumpSettings) (reader : ρ) (consumer : π) (world : σ)
    (moves : List (InboundRun.Move π σ)) :
    let content := SettledReader.content reader
    let first := InboundRun.start settings reader consumer world
    let d := first.run moves
    d.accepted <+: content ∧ d.pump.total = d.accepted.length ∧
    (d.pump.outcome? = none → ConsumerCall.Untold d.calls ∧
      d.accepted ++ (d.pump.stage.hand ++ SettledReader.content d.pump.reader) = content) ∧
    (∀ total, d.pump.outcome? = some (.ok total) →
      d.accepted = content ∧ total = d.accepted.length ∧ ConsumerCall.Told d.calls (.ok ())) ∧
    (∀ fault, d.pump.outcome? = some (.error fault) ↔
      ∃ before after, moves = before ++ .pump :: after ∧ (first.run before).Fails fault) ∧
    (∀ fault, d.pump.outcome? = some (.error fault) →
      ConsumerCall.Untold d.calls ∨ ConsumerCall.Told d.calls (.error fault)) ∧
    (d.pump.outcome? ≠ none → ∀ later,
      (d.run later).pump = d.pump ∧ (d.run later).calls = d.calls) := by
  intro content first d
  have sound : d.Sound settings reader := (InboundRun.sound_start settings reader consumer world).run moves
  obtain ⟨_, total, tallies⟩ := sound
  refine ⟨tallies.accepted, total, fun going => ?_, fun written closed => ?_, fun fault => ?_, ?_,
    fun closed later => ?_⟩
  · refine tallies.going fun result closed => ?_
    rw [Inbound.outcome_eq_some_iff.mpr closed] at going
    cases going
  · rw [Inbound.outcome_eq_some_iff.mp closed] at tallies
    exact ⟨tallies.2.1, tallies.2.2, tallies.1⟩
  · refine (first.outcome_run moves fault).trans (or_iff_right ?_)
    exact nofun
  · intro fault closed
    rw [Inbound.outcome_eq_some_iff.mp closed] at tallies
    exact tallies.1
  · obtain ⟨result, closed⟩ := Option.ne_none_iff_exists'.mp closed
    exact InboundRun.run_closed closed later

/-- Four bytes in front of an inlet for two. The worker makes room twice while the pump sleeps, and the pump delivers
all of them. Another reader breaks behind its first byte. -/
theorem inbound_pump_exact_full :
    let inlet (bytes : List UInt8) (granted : Nat) : Inlet Unit :=
      ⟨⟨2, none, bytes, false, false, 1⟩, some (), granted, none⟩
    let called : Bell := ⟨false, .called⟩
    let consumer : Inlet Unit := ⟨⟨2, none, [], false, false, 0⟩, none, 0, none⟩
    let reader : PlayedReader := ⟨[.bytes [1, 2, 3], .pending, .bytes [4]]⟩
    let moves : List (InboundRun.Move (Inlet Unit) Bell) :=
      .replicate 9 .pump ++ .become (inlet [2] 1) called :: .replicate 7 .pump ++
        .become (inlet [] 2) called :: .replicate 4 .pump
    let d := (InboundRun.start ⟨1, 2⟩ reader consumer Bell.silent).run moves
    let fault : Fault := .io .connectionReset "read failed"
    let broken := (InboundRun.start ⟨1, 2⟩ (⟨[.bytes [1], .fail]⟩ : PlayedReader) consumer Bell.silent).run moves
    Inlet.ofSettings ⟨2, none⟩ = .ok consumer ∧ HonestInflow (Inlet Unit) Unit Bell ∧
      d.pump.outcome? = some (.ok 4) ∧ d.accepted = [1, 2, 3, 4] ∧ ConsumerCall.Told d.calls (.ok ()) ∧
      broken.pump.outcome? = some (.error fault) ∧ broken.accepted = [1] ∧
      (ConsumerCall.Untold broken.calls ∨ ConsumerCall.Told broken.calls (.error fault)) := by
  intro inlet called consumer reader moves d fault broken
  obtain ⟨_, _, _, succeeds, _⟩ := inbound_pump_exact ⟨1, 2⟩ reader consumer Bell.silent moves
  obtain ⟨_, _, _, _, _, fails, _⟩ :=
    inbound_pump_exact ⟨1, 2⟩ (⟨[.bytes [1], .fail]⟩ : PlayedReader) consumer Bell.silent moves
  have done : d.pump.outcome? = some (.ok 4) := by decide +kernel
  have failed : broken.pump.outcome? = some (.error fault) := by decide +kernel
  obtain ⟨whole, _, told⟩ := succeeds 4 done
  exact ⟨rfl, inferInstance, done, whole, told, failed, by decide +kernel, fails fault failed⟩

end Sluice

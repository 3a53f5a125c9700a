import Sluice.Proofs.Chronicle
import Sluice.Proofs.Inlet.AfterAbort
import Sluice.Proofs.Outlet.Sections
import Sluice.Pump.Window

/-! An outlet among any number of callers, behind an abort. It stays empty, whoever asks it for something
is refused, and its channels are neither written to nor ended any more. -/
namespace Sluice

variable {ι σ : Type}

/-- A call on an outlet that is not over in one section: a write, or the request behind the end or the
abort of the body. -/
inductive OutletCall (ι : Type)
  | writing (w : Writing ι)
  | asking (known : Option ι)
  | done

namespace OutletCall

def Alert (c : Conduit) : OutletCall ι → Prop
  | writing w => w.Alert c
  | _ => True

def Vain : OutletCall ι → Prop
  | writing (.placing _) | writing (.asleep _ _) | writing (.done (.error _)) => True
  | _ => False

def Failed : OutletCall ι → Prop
  | writing (.done (.error _)) => True
  | _ => False

variable [Transport ι σ]

def step (call : OutletCall ι) (outlet : Outlet ι) (s : σ) : OutletCall ι × Outlet ι × σ :=
  match call with
  | writing w =>
    let (_, w, outlet, s) := w.step outlet s
    (writing w, outlet, s)
  | asking known => (done, outlet, Outlet.ask known s)
  | done => (done, outlet, s)

def timeOut (call : OutletCall ι) (outlet : Outlet ι) : OutletCall ι :=
  match call with
  | writing w => writing (w.timeOut outlet)
  | call => call

def Parked (call : OutletCall ι) (outlet : Outlet ι) (s : σ) : Prop :=
  ∃ w, call = writing w ∧ (w.step outlet s).1 = .parked

omit [Transport ι σ] in
private theorem Alert.later {c c' : Conduit} {call : OutletCall ι} (h : call.Alert c) (later : c.Later c') :
    call.Alert c' := by
  cases call with
  | writing w => exact Writing.Alert.later h later
  | _ => trivial

private theorem step_alert {call : OutletCall ι} {outlet : Outlet ι} (alert : call.Alert outlet.conduit) (s : σ) :
    outlet.conduit.Goes (call.step outlet s).2.1.conduit ∧
    (call.step outlet s).1.Alert (call.step outlet s).2.1.conduit := by
  cases call with
  | writing w => exact w.step_alert alert s
  | _ => exact ⟨.refl _, trivial⟩

omit [Transport ι σ] in
private theorem timeOut_alert {call : OutletCall ι} {outlet : Outlet ι} (alert : call.Alert outlet.conduit) :
    (call.timeOut outlet).Alert outlet.conduit := by
  cases call with
  | writing w =>
    cases w with
    | asleep rest since =>
      simp only [timeOut, Writing.timeOut]
      split
      · trivial
      · exact alert
    | _ => trivial
  | _ => trivial

omit [Transport ι σ] in
private theorem timeOut_vain {call : OutletCall ι} (vain : call.Vain) (outlet : Outlet ι) :
    (call.timeOut outlet).Vain := by
  cases call with
  | writing w =>
    cases w with
    | asleep rest since =>
      simp only [timeOut, Writing.timeOut]
      split <;> trivial
    | _ => exact vain
  | _ => exact vain

private theorem step_outlet (call : OutletCall ι) {outlet : Outlet ι}
    (aborted : outlet.conduit.aborted = true) (s : σ) :
    (call.step outlet s).2.1 = outlet := by
  cases call with
  | writing w =>
    obtain ⟨piece, moves⟩ := w.step_moves outlet s
    have none : piece = [] := by
      apply Classical.byContradiction
      intro some
      rw [(moves.going some).1] at aborted
      cases aborted
    have same := moves.put
    rw [none, List.append_nil] at same
    exact same
  | _ => rfl

private theorem awake {call : OutletCall ι} {outlet : Outlet ι} (alert : call.Alert outlet.conduit)
    (aborted : outlet.conduit.aborted = true) (s : σ) : ¬ call.Parked outlet s := by
  rintro ⟨w, rfl, parked⟩
  exact (w.step_aborted alert aborted s).1 parked

private theorem step_vain {call : OutletCall ι} {outlet : Outlet ι} (vain : call.Vain)
    (alert : call.Alert outlet.conduit) (aborted : outlet.conduit.aborted = true) (s : σ) :
    (call.step outlet s).1.Failed := by
  cases call with
  | writing w =>
    cases w with
    | placing rest =>
      simp only [step, Writing.step, (outlet.place_spec rest).2.2 aborted]
      trivial
    | asleep rest since =>
      have awake : ¬ since = outlet.conduit.wakes := Nat.ne_of_lt (alert.2 aborted)
      simp only [step, Writing.step, awake, if_false, (outlet.place_spec rest).2.2 aborted]
      trivial
    | done result =>
      cases result with
      | error fault => trivial
      | ok _ => exact False.elim vain
    | asking ch rest => exact False.elim vain
  | _ => exact False.elim vain

omit [Transport ι σ] in
private theorem Failed.vain {call : OutletCall ι} (failed : call.Failed) : call.Vain := by
  cases call with
  | writing w =>
    cases w with
    | done result =>
      cases result with
      | error fault => trivial
      | ok _ => exact False.elim failed
    | _ => exact False.elim failed
  | _ => exact False.elim failed

/-- A section of a call does nothing to the channels but ask them for a flush. -/
theorem step_asks (call : OutletCall ι) (outlet : Outlet ι) (s : σ) :
    ∃ known : Option ι, (call.step outlet s).2.2 = Transport.requestOutput known s := by
  cases call with
  | writing w => exact w.step_asks outlet s
  | asking known => exact ⟨known, rfl⟩
  | done => exact ⟨none, rfl⟩

end OutletCall

namespace Outlet

private theorem complete_aborted {outlet : Outlet ι} (aborted : outlet.conduit.aborted = true) :
    outlet.complete = (.error .aborted, outlet) := by
  rw [complete, if_pos aborted]

private theorem flush_aborted [Transport ι σ] {outlet : Outlet ι} (aborted : outlet.conduit.aborted = true)
    (ch : ι) (s : σ) : outlet.flush ch s = (.error .aborted, { outlet with channel := some ch }, s) := by
  simp only [flush, aborted, if_true]

end Outlet

/-- An outlet, the record of its channels, and the calls in flight. -/
structure SharedOutlet (ι σ : Type) where
  outlet : Outlet ι
  record : Chronicle ι σ
  inFlight : List (OutletCall ι)

namespace SharedOutlet

/-- The begin of a write, the section of an end, of a flush or of an abort, a section of the call at some
place, the end of a writer's patience, or a move of the channels on their own. -/
inductive Move (ι σ : Type)
  | write (src : List UInt8)
  | complete
  | flush (ch : ι)
  | abort
  | work (place : Nat)
  | timeOut (place : Nat)
  | become (world : σ)

def start (outlet : Outlet ι) (world : σ) : SharedOutlet ι σ := ⟨outlet, .start world, []⟩

/-- Whether the write at some place has bytes to place. -/
def Hopeless (q : SharedOutlet ι σ) (place : Nat) : Prop := HasAt OutletCall.Vain q.inFlight place

def FailedAt (q : SharedOutlet ι σ) (place : Nat) : Prop := HasAt OutletCall.Failed q.inFlight place

variable [Transport ι σ]

/-- Make one move. A call goes on from section to section, between those of other calls. -/
def step (q : SharedOutlet ι σ) : Move ι σ → SharedOutlet ι σ
  | .write src => { q with inFlight := q.inFlight ++ [.writing (.ofRest src)] }
  | .complete =>
    match q.outlet.complete with
    | (.error _, outlet) => { q with outlet }
    | (.ok known, outlet) => { q with outlet, inFlight := q.inFlight ++ [.asking known] }
  | .flush ch =>
    let (_, outlet, record) := q.outlet.flush ch q.record
    { q with outlet, record }
  | .abort =>
    let (known, outlet) := q.outlet.abort
    { q with outlet, inFlight := q.inFlight ++ [.asking known] }
  | .work place =>
    match q.inFlight[place]? with
    | none => q
    | some call =>
      let (call, outlet, record) := call.step q.outlet q.record
      { outlet, record, inFlight := q.inFlight.set place call }
  | .timeOut place =>
    match q.inFlight[place]? with
    | none => q
    | some call => { q with inFlight := q.inFlight.set place (call.timeOut q.outlet) }
  | .become world => { q with record := { q.record with world } }

def run (moves : List (Move ι σ)) (q : SharedOutlet ι σ) : SharedOutlet ι σ := moves.foldl step q

/-- What holds of the callers of an outlet after any moves: who sleeps is woken by an abort, and an
aborted outlet is empty. -/
structure Watchful (q : SharedOutlet ι σ) : Prop where
  alert : ∀ call ∈ q.inFlight, call.Alert q.outlet.conduit
  empty : q.outlet.conduit.aborted = true → q.outlet.conduit.bytes = []

omit [Transport ι σ] in
private theorem watchful_start {settings : BufferSettings} {outlet : Outlet ι}
    (made : Outlet.ofSettings settings = .ok outlet) (world : σ) : (start outlet world).Watchful := by
  obtain rfl := Outlet.ofSettings_ok made
  exact ⟨nofun, fun _ => rfl⟩

omit [Transport ι σ] in
private theorem Watchful.goes {q : SharedOutlet ι σ} (h : q.Watchful) {outlet' : Outlet ι}
    (later : q.outlet.conduit.Later outlet'.conduit)
    (empty : outlet'.conduit.aborted = true → outlet'.conduit.bytes = []) (record' : Chronicle ι σ) :
    Watchful { q with outlet := outlet', record := record' } :=
  ⟨fun call member => (h.alert call member).later later, empty⟩

omit [Transport ι σ] in
private theorem Watchful.begun {q : SharedOutlet ι σ} (h : q.Watchful) {call' : OutletCall ι}
    (alert : call'.Alert q.outlet.conduit) : Watchful { q with inFlight := q.inFlight ++ [call'] } := by
  refine ⟨fun call member => ?_, h.empty⟩
  rcases List.mem_append.mp member with old | new
  · exact h.alert call old
  · exact List.mem_singleton.mp new ▸ alert

omit [Transport ι σ] in
private theorem Watchful.moved {q : SharedOutlet ι σ} (h : q.Watchful) (place : Nat)
    {call' : OutletCall ι} {outlet' : Outlet ι}
    (alert : call'.Alert outlet'.conduit) (later : q.outlet.conduit.Later outlet'.conduit)
    (empty : outlet'.conduit.aborted = true → outlet'.conduit.bytes = []) (record' : Chronicle ι σ) :
    Watchful ⟨outlet', record', q.inFlight.set place call'⟩ := by
  refine ⟨fun other member => ?_, empty⟩
  rcases List.mem_or_eq_of_mem_set member with old | rfl
  · exact (h.alert other old).later later
  · exact alert

private theorem Watchful.completes {q : SharedOutlet ι σ} (h : q.Watchful) : (q.step .complete).Watchful := by
  have goes := q.outlet.complete_goes
  have empty : q.outlet.complete.2.conduit.aborted = true → q.outlet.complete.2.conduit.bytes = [] := by
    intro aborted
    have aborted := goes.aborted.symm.trans aborted
    rw [Outlet.complete_aborted aborted]
    exact h.empty aborted
  have completed := h.goes goes.later empty q.record
  simp only [SharedOutlet.step]
  split
  next refused =>
    rw [refused] at completed
    exact completed
  next known _ passed =>
    rw [passed] at completed
    exact completed.begun (trivial : (OutletCall.asking known).Alert _)

private theorem Watchful.works {q : SharedOutlet ι σ} (h : q.Watchful) (place : Nat) :
    (q.step (.work place)).Watchful := by
  simp only [SharedOutlet.step]
  split
  · exact h
  next call flight =>
    obtain ⟨goes, alert⟩ := OutletCall.step_alert (h.alert call (List.mem_of_getElem? flight)) q.record
    refine h.moved place alert goes.later ?_ _
    intro aborted
    have aborted := goes.aborted.symm.trans aborted
    rw [call.step_outlet aborted]
    exact h.empty aborted

theorem Watchful.step {q : SharedOutlet ι σ} (h : q.Watchful) (move : Move ι σ) : (q.step move).Watchful := by
  cases move with
  | write src => exact h.begun (Writing.alert_ofRest _ src : (OutletCall.writing (.ofRest src)).Alert _)
  | complete => exact h.completes
  | flush ch =>
    have goes := q.outlet.flush_goes ch q.record
    apply h.goes goes.later
    intro aborted
    have aborted := goes.aborted.symm.trans aborted
    rw [Outlet.flush_aborted aborted]
    exact h.empty aborted
  | abort =>
    have aborted := h.goes q.outlet.abort_later ?_ q.record
    · exact aborted.begun (trivial : (OutletCall.asking q.outlet.abort.1).Alert _)
    · intro _
      simp only [Outlet.abort]
      split
      next aborted => exact h.empty aborted
      · rfl
  | work place => exact h.works place
  | timeOut place =>
    simp only [SharedOutlet.step]
    split
    · exact h
    next call flight =>
      have alert := OutletCall.timeOut_alert (h.alert call (List.mem_of_getElem? flight))
      exact h.moved place alert (Conduit.Goes.refl _).later h.empty q.record
  | become world => exact ⟨h.alert, h.empty⟩

theorem Watchful.run {q : SharedOutlet ι σ} (h : q.Watchful) (moves : List (Move ι σ)) : (q.run moves).Watchful := by
  induction moves generalizing q with
  | nil => exact h
  | cons move rest ih => exact ih (h.step move)

private theorem step_aborted {q : SharedOutlet ι σ} (aborted : q.outlet.conduit.aborted = true) (move : Move ι σ) :
    (q.step move).outlet.conduit.aborted = true := by
  cases move with
  | complete =>
    simp only [step, Outlet.complete_aborted aborted]
    exact aborted
  | flush ch => exact (q.outlet.flush_goes ch q.record).aborted.trans aborted
  | abort => exact q.outlet.abort_aborted
  | work place =>
    simp only [step]
    split
    · exact aborted
    next call flight =>
      rw [call.step_outlet aborted]
      exact aborted
  | timeOut place =>
    simp only [step]
    split
    · exact aborted
    · exact aborted
  | _ => exact aborted

private theorem step_deeds {q : SharedOutlet ι σ} (aborted : q.outlet.conduit.aborted = true) (move : Move ι σ) :
    ∃ more, (q.step move).record.deeds = q.record.deeds ++ more ∧ ∀ deed ∈ more, ∃ ch, deed = .asked ch := by
  have same : ∃ more, q.record.deeds = q.record.deeds ++ more ∧ ∀ deed ∈ more, ∃ ch, deed = .asked ch :=
    ⟨[], (List.append_nil _).symm, nofun⟩
  cases move with
  | complete =>
    simp only [step, Outlet.complete_aborted aborted]
    exact same
  | flush ch =>
    simp only [step, Outlet.flush_aborted aborted]
    exact same
  | work place =>
    simp only [step]
    split
    · exact same
    next call flight =>
      obtain ⟨known, asks⟩ := call.step_asks q.outlet q.record
      rw [asks]
      cases known with
      | none => exact same
      | some ch => exact ⟨[.asked ch], rfl, fun deed new => ⟨ch, List.mem_singleton.mp new⟩⟩
  | timeOut place =>
    simp only [step]
    split
    · exact same
    · exact same
  | _ => exact same

/-- A write that has bytes to place when the outlet is aborted never places them. -/
theorem Hopeless.step {q : SharedOutlet ι σ} {place : Nat} (h : q.Hopeless place) (sound : q.Watchful)
    (aborted : q.outlet.conduit.aborted = true) (move : Move ι σ) : (q.step move).Hopeless place := by
  cases move with
  | write src => exact HasAt.append h _
  | complete =>
    simp only [SharedOutlet.step, Outlet.complete_aborted aborted]
    exact h
  | abort => exact HasAt.append h _
  | work other =>
    simp only [SharedOutlet.step]
    split
    · exact h
    next call flight =>
      refine HasAt.set h other fun call' flight' vain => ?_
      obtain rfl := Option.some.inj (flight.symm.trans flight')
      exact (OutletCall.step_vain vain (sound.alert call (List.mem_of_getElem? flight)) aborted q.record).vain
  | timeOut other =>
    simp only [SharedOutlet.step]
    split
    · exact h
    next call flight =>
      refine HasAt.set h other fun call' flight' vain => ?_
      obtain rfl := Option.some.inj (flight.symm.trans flight')
      exact OutletCall.timeOut_vain vain q.outlet
  | _ => exact h

/-- Everything that an abort decides stays decided. -/
theorem run_aborted {q : SharedOutlet ι σ} (sound : q.Watchful) (aborted : q.outlet.conduit.aborted = true)
    (moves : List (Move ι σ)) :
    (q.run moves).outlet.conduit.aborted = true ∧
    (∃ more, (q.run moves).record.deeds = q.record.deeds ++ more ∧ ∀ deed ∈ more, ∃ ch, deed = .asked ch) ∧
    ∀ place, q.Hopeless place → (q.run moves).Hopeless place := by
  induction moves generalizing q with
  | nil => exact ⟨aborted, ⟨[], (List.append_nil _).symm, nofun⟩, fun _ => id⟩
  | cons move rest ih =>
    obtain ⟨still, ⟨later, behind, only⟩, hopeless⟩ := ih (sound.step move) (step_aborted aborted move)
    obtain ⟨now, first, only'⟩ := step_deeds aborted move
    refine ⟨still, ⟨now ++ later, ?_, ?_⟩, fun place h => ?_⟩
    · rw [← List.append_assoc, ← first]
      exact behind
    · intro deed member
      rcases List.mem_append.mp member with new | newer
      · exact only' deed new
      · exact only deed newer
    · exact hopeless place (h.step sound aborted move)

private theorem Hopeless.work {q : SharedOutlet ι σ} {place : Nat} (h : q.Hopeless place) (sound : q.Watchful)
    (aborted : q.outlet.conduit.aborted = true) : (q.step (.work place)).FailedAt place := by
  obtain ⟨call, flight, vain⟩ := h
  have there : place < q.inFlight.length := (List.getElem?_eq_some_iff.mp flight).1
  have failed := OutletCall.step_vain vain (sound.alert call (List.mem_of_getElem? flight)) aborted q.record
  simp only [SharedOutlet.step, flight]
  exact ⟨_, List.getElem?_set_self there, failed⟩

private theorem hopeless_write (q : SharedOutlet ι σ) {src : List UInt8} (some : src ≠ []) :
    (q.step (.write src)).Hopeless q.inFlight.length := by
  refine HasAt.concat q.inFlight ?_
  cases src with
  | nil => exact absurd rfl some
  | cons b src => trivial

/-- What an abort at one moment leaves of an outlet at a later one. It is empty, nobody sleeps there, and
in between the channels were asked for a flush at most. It does not take an end nor let out a byte, and
a write of some bytes fails in the section it does next, whatever happens before. -/
structure AfterAbort (q r : SharedOutlet ι σ) : Prop where
  aborted : r.outlet.conduit.aborted = true
  empty : r.outlet.length = 0
  awake : ∀ call ∈ r.inFlight, ¬ call.Parked r.outlet r.record
  deeds : ∃ more, r.record.deeds = q.record.deeds ++ more ∧ ∀ deed ∈ more, ∃ ch, deed = .asked ch
  complete : ∀ s : σ, r.outlet.writeCompleted s = (.error .aborted, r.outlet, s)
  flush : ∀ ch (s : σ), r.outlet.flush ch s = (.error .aborted, { r.outlet with channel := some ch }, s)
  waiting : ∀ place, q.Hopeless place → (r.step (.work place)).FailedAt place
  begun : ∀ src, src ≠ [] → ∀ between,
    (((r.step (.write src)).run between).step (.work r.inFlight.length)).FailedAt r.inFlight.length

private theorem Watchful.afterAbort {q : SharedOutlet ι σ} (h : q.Watchful) (aborted : q.outlet.conduit.aborted = true)
    (moves : List (Move ι σ)) : q.AfterAbort (q.run moves) := by
  obtain ⟨still, made, hopeless⟩ := run_aborted h aborted moves
  have watchful := h.run moves
  constructor
  · exact still
  · exact congrArg List.length (watchful.empty still)
  · exact fun call member => OutletCall.awake (watchful.alert call member) still _
  · exact made
  · intro s
    rw [Outlet.writeCompleted, Outlet.complete_aborted still]
  · exact Outlet.flush_aborted still
  · intro place waits
    exact (hopeless place waits).work watchful still
  · intro src some between
    have aborted' := step_aborted still (.write src)
    obtain ⟨still', _, hopeless'⟩ := run_aborted (watchful.step (.write src)) aborted' between
    exact (hopeless' _ (hopeless_write _ some)).work ((watchful.step (.write src)).run between) still'

end SharedOutlet

/-- An abort is for good, whatever a buffer holds and whoever sleeps on it when it comes, and whatever is
called behind it. -/
theorem abort_is_permanent {κ ι σ τ : Type} [CapacityChannel κ σ] [Transport ι τ] (settings : BufferSettings)
    (inlet : Inlet κ) (made : Inlet.ofSettings settings = .ok inlet) (world : σ)
    (before after : List (SharedInlet.Move κ σ)) (outlet : Outlet ι)
    (made' : Outlet.ofSettings settings = .ok outlet) (world' : τ) (before' after' : List (SharedOutlet.Move ι τ)) :
    let t := ((SharedInlet.start inlet world).run before).step .abort
    let q := ((SharedOutlet.start outlet world').run before').step .abort
    t.AfterAbort (t.run after) ∧ q.AfterAbort (q.run after') := by
  intro t q
  constructor
  · have watchful := ((SharedInlet.watchful_start made world).run before).step .abort
    exact watchful.afterAbort rfl after
  · have watchful := ((SharedOutlet.watchful_start made' world').run before').step .abort
    exact watchful.afterAbort (Outlet.abort_aborted _) after'

/-- Two bytes of room are announced and arrive. One reader is about to announce the room of the first byte
and another waits, a writer waits behind two bytes of three, and both buffers are aborted. What was due is
announced, and the one who waits gets nothing. -/
theorem abort_is_permanent_waiting :
    let inlet : Inlet Unit := ⟨⟨2, none, [], false, false, 0⟩, none, 0, none⟩
    let outlet : Outlet Unit := ⟨⟨2, none, [], false, false, 0⟩, none, false⟩
    let t := ((SharedInlet.start inlet Bell.silent).run
      [.register (), .work 0, .work 0, .fill [1, 2], .read 2, .work 1, .read 1, .work 2]).step .abort
    let u := t.run [.markEnd, .work 1, .fill [3]]
    let q := ((SharedOutlet.start outlet (Window.ofSize 5)).run
      [.flush (), .write [1, 2, 3], .work 0, .work 0, .work 0]).step .abort
    let r := q.run [.work 1, .complete, .flush ()]
    Inlet.ofSettings ⟨2, none⟩ = .ok inlet ∧ Outlet.ofSettings ⟨2, none⟩ = .ok outlet ∧
      u.inlet.length = 0 ∧ u.increments = {((), 2), ((), 2)} ∧ (u.inlet.fill [4]).1 = .error .aborted ∧
      (u.step (.work 2)).FailedAt 2 ∧ r.outlet.length = 0 ∧
      (r.outlet.flush () (Window.ofSize 5)).1 = .error .aborted ∧ (r.step (.work 0)).FailedAt 0 := by
  intro inlet outlet t u q r
  obtain ⟨inside, outside⟩ := abort_is_permanent ⟨2, none⟩ inlet rfl Bell.silent
    [.register (), .work 0, .work 0, .fill [1, 2], .read 2, .work 1, .read 1, .work 2]
    [.markEnd, .work 1, .fill [3]] outlet rfl (Window.ofSize 5)
    [.flush (), .write [1, 2, 3], .work 0, .work 0, .work 0] [.work 1, .complete, .flush ()]
  have reader : t.Hopeless 2 := ⟨.reading 1 (.asleep 1), by cbv, trivial⟩
  have writer : q.Hopeless 0 := ⟨.writing (.asleep [3] 0), by cbv, trivial⟩
  have due : t.increments = {((), 2), ((), 2)} := by decide
  exact ⟨rfl, rfl, inside.empty, inside.increments.trans due, congrArg Prod.fst (inside.fill [4]),
    inside.waiting 2 reader, outside.empty, congrArg Prod.fst (outside.flush () _), outside.waiting 0 writer⟩

end Sluice

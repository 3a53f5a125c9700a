import Sluice.Inlet.Reading
import Sluice.Proofs.Conduit

/-! What each section of a fill, of an announcement and of a read does to the conduit of an inlet.
Only a read takes bytes out, and it holds them until it returns. -/
namespace Sluice

variable {κ σ : Type}

namespace Inlet

/-- A new inlet knows no channel and has announced nothing. -/
theorem ofSettings_ok {settings : BufferSettings} {inlet : Inlet κ} (valid : ofSettings settings = .ok inlet) :
    inlet = ⟨⟨settings.bufferSize, settings.waitMillis, [], false, false, 0⟩, none, 0, none⟩ := by
  obtain ⟨conduit, made, rfl⟩ := ok_of_map valid
  rw [Conduit.ofSettings_ok made]

/-- A fill adds what it answers to have taken, and nothing to an inlet that has ended. -/
theorem fill_spec (inlet : Inlet κ) (bytes : List UInt8) :
    (∀ n, (inlet.fill bytes).1 = .ok n → n ≤ bytes.length) ∧
    (inlet.conduit.ended = true → takenOf bytes (inlet.fill bytes).1 = []) ∧
    (inlet.conduit.length ≤ inlet.conduit.capacity →
      (inlet.fill bytes).2.conduit.length ≤ inlet.conduit.capacity) ∧
    ∃ wakes, (inlet.fill bytes).2.conduit =
      { inlet.conduit with bytes := inlet.conduit.bytes ++ takenOf bytes (inlet.fill bytes).1, wakes } := by
  obtain ⟨least, put, within⟩ := inlet.conduit.put_spec bytes
  have same : inlet.conduit = { inlet.conduit with bytes := inlet.conduit.bytes ++ [] } := by
    rw [List.append_nil]
  unfold fill
  split
  · exact ⟨nofun, fun _ => rfl, id, _, same⟩
  · split
    · exact ⟨nofun, fun _ => rfl, id, _, same⟩
    next going =>
      have woken : ∃ wakes, (if 0 < (inlet.conduit.put bytes).1 then (inlet.conduit.put bytes).2.wake
          else (inlet.conduit.put bytes).2) = { (inlet.conduit.put bytes).2 with wakes } := by
        split
        · exact ⟨_, rfl⟩
        · exact ⟨_, rfl⟩
      obtain ⟨wakes, woken⟩ := woken
      refine ⟨fun n h => Except.ok.inj h ▸ least, fun h => absurd h going, fun h => ?_, wakes, ?_⟩
      · change Conduit.length (if _ then _ else _) ≤ _
        rw [woken]
        exact within h
      · change (if _ then _ else _) = _
        rw [woken, put]

@[simp] theorem deferred_fill (inlet : Inlet κ) (bytes : List UInt8) :
    (inlet.fill bytes).2.deferred = inlet.deferred := by
  unfold fill
  split
  · rfl
  · split
    · rfl
    · rfl

@[simp] theorem deferred_register (inlet : Inlet κ) (ch : κ) :
    (inlet.register ch).2.deferred = inlet.deferred := by
  unfold register
  split
  · rfl
  · rfl

@[simp] theorem conduit_register (inlet : Inlet κ) (ch : κ) :
    (inlet.register ch).2.conduit = inlet.conduit := by
  unfold register
  split
  · rfl
  · rfl

end Inlet

namespace Reading

def inHand : Reading κ → List UInt8
  | announcing bytes _ _ | revoking bytes _ _ | postponing bytes _ | done (.ok bytes) => bytes
  | _ => []

/-- A read without room is over before it begins, and room is announced for bytes only. -/
def Sane (room : Nat) : Reading κ → Prop
  | entering | asleep _ => room ≠ 0
  | announcing bytes _ _ | revoking bytes _ _ | postponing bytes _ => bytes ≠ []
  | done _ => True

/-- The end of the stream, as a read with room tells it. -/
def AtEnd (reading : Reading κ) : Prop := reading = done (.ok [])

/-- What a section of a read does: it takes bytes from the front into its hand, and it finds the
end only of a conduit that has ended and is empty. -/
structure Moves (room : Nat) (reading : Reading κ) (inlet : Inlet κ) (reading' : Reading κ)
    (inlet' : Inlet κ) : Prop where
  sane : reading'.Sane room
  taking : ∃ n, inlet'.conduit = inlet.conduit.drop n ∧
    reading'.inHand = reading.inHand ++ inlet.conduit.bytes.take n
  ending : reading'.AtEnd → reading.AtEnd ∨
    inlet.conduit.aborted = false ∧ inlet.conduit.ended = true ∧ inlet.conduit.bytes = []

private theorem not_atEnd {bytes : List UInt8} (some : bytes ≠ []) : ¬ (done (.ok bytes) : Reading κ).AtEnd := by
  intro ended
  exact some (Except.ok.inj (Reading.done.inj ended))

theorem sane_ofRoom (room : Nat) : (ofRoom room : Reading κ).Sane room := by
  unfold ofRoom
  split
  next none => trivial
  next some => exact some

theorem inHand_ofRoom (room : Nat) : (ofRoom room : Reading κ).inHand = [] := by
  unfold ofRoom
  split
  · rfl
  · rfl

end Reading

namespace Inlet

@[simp] theorem conduit_afterTake (inlet : Inlet κ) (bytes : List UInt8) :
    (inlet.afterTake bytes).2.conduit = inlet.conduit := by
  unfold afterTake
  split
  · rfl
  · split
    · rfl
    · split
      next granted => exact (congrArg (·.2.conduit) granted).symm
      next granted => exact (congrArg (·.2.conduit) granted).symm

/-- Behind a read, room is announced if there is some that was not granted and somebody to be told. -/
theorem afterTake_cases (inlet : Inlet κ) (bytes : List UInt8) :
    (inlet.channel ≠ none → inlet.conduit.ended = false → inlet.conduit.free ≤ inlet.granted) ∧
      inlet.afterTake bytes = (.done (.ok bytes), inlet) ∨
    ∃ ch, let increment := inlet.conduit.free - inlet.granted
      inlet.afterTake bytes =
        (.announcing bytes ch increment, { inlet with granted := inlet.granted + increment }) := by
  unfold afterTake
  split
  next none => exact .inl ⟨fun known => absurd none known, rfl⟩
  next ch known =>
    split
    next ended => exact .inl ⟨fun _ going => absurd ended (Bool.eq_false_iff.mp going), rfl⟩
    · split
      next none =>
        obtain ⟨full, rfl⟩ := Prod.mk.inj none
        refine .inl ⟨fun _ _ => Nat.sub_eq_zero_iff_le.mp full, ?_⟩
        simp only [full, Nat.add_zero]
      next some =>
        obtain ⟨increment, rfl⟩ := Prod.mk.inj some
        exact .inr ⟨ch, by simp only [increment]⟩

private theorem afterTake_spec (inlet : Inlet κ) (bytes : List UInt8) (some : bytes ≠ []) (room : Nat) :
    (inlet.afterTake bytes).1.Sane room ∧ (inlet.afterTake bytes).1.inHand = bytes ∧
    ¬ (inlet.afterTake bytes).1.AtEnd := by
  have going := Reading.not_atEnd (κ := κ) some
  unfold afterTake
  split
  · exact ⟨trivial, rfl, going⟩
  · split
    · exact ⟨trivial, rfl, going⟩
    · split
      · exact ⟨trivial, rfl, going⟩
      · exact ⟨some, rfl, nofun⟩

private theorem take_conduit (inlet : Inlet κ) (room : Nat) :
    ∃ n, (inlet.take room).2.conduit = inlet.conduit.drop n := by
  unfold take
  split
  · exact ⟨0, rfl⟩
  · split
    · split
      · exact ⟨0, rfl⟩
      · exact ⟨0, rfl⟩
    · exact ⟨room, conduit_afterTake _ _⟩

private theorem enter_conduit (inlet : Inlet κ) (room : Nat) :
    ∃ n, (inlet.enter room).2.conduit = inlet.conduit.drop n := by
  unfold enter
  split
  · exact ⟨0, rfl⟩
  · exact inlet.take_conduit room

private theorem take_moves (inlet : Inlet κ) (room : Nat) (reading : Reading κ) (some : room ≠ 0)
    (empty : reading.inHand = []) :
    reading.Moves room inlet (inlet.take room).1 (inlet.take room).2 := by
  have none : ∃ n, inlet.conduit = inlet.conduit.drop n ∧ [] = reading.inHand ++ inlet.conduit.bytes.take n :=
    ⟨0, rfl, by rw [empty, List.take_zero, List.append_nil]⟩
  unfold take
  split
  · exact ⟨trivial, none, nofun⟩
  next live =>
    split
    next drained =>
      have drained := List.isEmpty_iff.mp drained
      split
      next ended => exact ⟨trivial, none, fun _ => .inr ⟨Bool.eq_false_iff.mpr live, ended, drained⟩⟩
      · exact ⟨some, none, nofun⟩
    next waiting =>
      have nonempty : inlet.conduit.bytes.take room ≠ [] := by
        intro h
        rcases List.take_eq_nil_iff.mp h with h | h
        · exact some h
        · exact waiting (List.isEmpty_iff.mpr h)
      obtain ⟨sane, hand, going⟩ := afterTake_spec
        { inlet with conduit := inlet.conduit.drop room } (inlet.conduit.bytes.take room) nonempty room
      exact ⟨sane, ⟨room, conduit_afterTake _ _, by rw [hand, empty, List.nil_append]⟩, fun h => absurd h going⟩

private theorem enter_moves (inlet : Inlet κ) (room : Nat) (reading : Reading κ) (some : room ≠ 0)
    (empty : reading.inHand = []) :
    reading.Moves room inlet (inlet.enter room).1 (inlet.enter room).2 := by
  unfold enter
  split
  · exact ⟨trivial, ⟨0, rfl, by rw [empty, List.take_zero]; rfl⟩, nofun⟩
  · exact inlet.take_moves room reading some empty

end Inlet

namespace Reading

private theorem Moves.idle {room : Nat} {reading reading' : Reading κ} {inlet inlet' : Inlet κ}
    (sane : reading'.Sane room) (hand : reading'.inHand = reading.inHand)
    (same : inlet'.conduit = inlet.conduit) (ending : reading'.AtEnd → reading.AtEnd) :
    reading.Moves room inlet reading' inlet' :=
  ⟨sane, ⟨0, same, by rw [hand, List.take_zero, List.append_nil]⟩, fun h => .inl (ending h)⟩

/-- Every step of a read is such a section. -/
theorem step_moves [CapacityChannel κ σ] (room : Nat) (reading : Reading κ) (inlet : Inlet κ) (s : σ)
    (sane : reading.Sane room) :
    reading.Moves room inlet (reading.step room inlet s).2.1 (reading.step room inlet s).2.2.1 := by
  cases reading with
  | entering => exact inlet.enter_moves room .entering sane rfl
  | asleep since =>
    simp only [step]
    split
    · exact .idle sane rfl rfl id
    · exact inlet.take_moves room (.asleep since) sane rfl
  | announcing bytes ch increment =>
    simp only [step]
    split
    · exact .idle trivial rfl rfl fun h => absurd h (not_atEnd sane)
    · exact .idle sane rfl rfl nofun
  | revoking bytes increment fault => exact .idle sane rfl rfl nofun
  | postponing bytes fault => exact .idle trivial rfl rfl fun h => absurd h (not_atEnd sane)
  | done result => exact .idle trivial rfl rfl id

theorem step_conduit [CapacityChannel κ σ] (room : Nat) (reading : Reading κ) (inlet : Inlet κ) (s : σ) :
    ∃ n, (reading.step room inlet s).2.2.1.conduit = inlet.conduit.drop n := by
  cases reading with
  | entering => exact inlet.enter_conduit room
  | asleep since =>
    simp only [step]
    split
    · exact ⟨0, rfl⟩
    · exact inlet.take_conduit room
  | announcing bytes ch increment =>
    simp only [step]
    split
    · exact ⟨0, rfl⟩
    · exact ⟨0, rfl⟩
  | _ => exact ⟨0, rfl⟩

theorem timeOut_moves (room : Nat) (reading : Reading κ) (inlet : Inlet κ) (sane : reading.Sane room) :
    reading.Moves room inlet (reading.timeOut inlet) inlet := by
  cases reading with
  | asleep since =>
    simp only [timeOut]
    split
    · exact .idle trivial rfl rfl nofun
    · exact .idle sane rfl rfl id
  | _ => exact .idle sane rfl rfl id

end Reading
end Sluice

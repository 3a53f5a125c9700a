import Sluice.Outlet.Writing
import Sluice.Proofs.Conduit

/-! What each section of a write and of a flush does to the conduit of an outlet. A write puts
pieces of its bytes behind the others until none is left, and only a flush takes bytes out. -/
namespace Sluice

variable {ι σ : Type}

namespace Writing

/-- Whether a write has `rest` left to place. A write that failed may have left anything. -/
def Left (rest : List UInt8) : Writing ι → Prop
  | placing left | asleep left _ | asking _ left => left = rest
  | done (.ok ()) => rest = []
  | done (.error _) => True

theorem left_ofRest (rest : List UInt8) : (ofRest rest : Writing ι).Left rest := by
  unfold ofRest
  split
  next none => exact List.isEmpty_iff.mp none
  · rfl

/-- What a section of a write does: it puts a piece of what is left behind the other bytes, which
takes a live outlet whose body goes on. -/
structure Moves (writing : Writing ι) (outlet : Outlet ι) (writing' : Writing ι) (outlet' : Outlet ι)
    (piece : List UInt8) : Prop where
  put : outlet' = { outlet with
    conduit := { outlet.conduit with bytes := outlet.conduit.bytes ++ piece } }
  going : piece ≠ [] → outlet.conduit.aborted = false ∧ outlet.conduit.ended = false
  within : outlet.conduit.length ≤ outlet.conduit.capacity →
    outlet'.conduit.length ≤ outlet.conduit.capacity
  left : ∀ rest, writing.Left rest → ∃ rest', rest = piece ++ rest' ∧ writing'.Left rest'

private theorem Moves.idle {writing writing' : Writing ι} (outlet : Outlet ι)
    (left : ∀ rest, writing.Left rest → writing'.Left rest) :
    writing.Moves outlet writing' outlet [] where
  put := by rw [List.append_nil]
  going h := absurd rfl h
  within := id
  left rest h := ⟨rest, rfl, left rest h⟩

end Writing

/-- A new outlet knows no channel and has passed nothing on. -/
theorem Outlet.ofSettings_ok {settings : BufferSettings} {outlet : Outlet ι}
    (valid : ofSettings settings = .ok outlet) :
    outlet = ⟨⟨settings.bufferSize, settings.waitMillis, [], false, false, 0⟩, none, false⟩ := by
  obtain ⟨conduit, made, rfl⟩ := ok_of_map valid
  rw [Conduit.ofSettings_ok made]

/-- A write that looks for room places as much of its rest as fits. -/
theorem Outlet.place_moves (outlet : Outlet ι) (rest : List UInt8) (writing : Writing ι)
    (only : ∀ left, writing.Left left → left = rest) :
    ∃ piece, writing.Moves outlet (outlet.place rest).1 (outlet.place rest).2 piece := by
  simp only [place]
  split
  · exact ⟨[], .idle outlet fun _ _ => trivial⟩
  next live =>
    split
    · exact ⟨[], .idle outlet fun _ _ => trivial⟩
    next going =>
      split
      · exact ⟨[], .idle outlet fun left h => (only left h).symm⟩
      · obtain ⟨_, _, within⟩ := outlet.conduit.put_spec rest
        have split : rest = rest.take (outlet.conduit.put rest).1 ++ rest.drop (outlet.conduit.put rest).1 :=
          (List.take_append_drop ..).symm
        have live : outlet.conduit.aborted = false ∧ outlet.conduit.ended = false :=
          ⟨Bool.eq_false_iff.mpr live, Bool.eq_false_iff.mpr going⟩
        refine ⟨rest.take (outlet.conduit.put rest).1, ?_⟩
        split
        · refine ⟨rfl, fun _ => live, within, fun left h => ?_⟩
          exact ⟨_, only left h ▸ split, Writing.left_ofRest _⟩
        · refine ⟨rfl, fun _ => live, within, fun left h => ?_⟩
          exact ⟨_, only left h ▸ split, rfl⟩

/-- A flush leaves the conduit as it is, or takes bytes out and wakes everybody. -/
theorem Outlet.flush_conduit [Transport ι σ] (outlet : Outlet ι) (ch : ι) (s : σ) :
    (outlet.flush ch s).2.1.conduit = outlet.conduit ∨
    ∃ n, 0 < n ∧ outlet.conduit.bytes ≠ [] ∧ (outlet.flush ch s).2.1.conduit = (outlet.conduit.drop n).wake := by
  have drained : ∀ o : Outlet ι, (o.drain ch s).2.1.conduit = o.conduit ∨
      ∃ n, 0 < n ∧ o.conduit.bytes ≠ [] ∧ (o.drain ch s).2.1.conduit = (o.conduit.drop n).wake := by
    intro o
    simp only [Outlet.drain]
    split
    · exact .inl rfl
    next waiting =>
      split
      · exact .inl rfl
      next written _ _ =>
        by_cases some : 0 < written
        · refine .inr ⟨written, some, fun empty => waiting (List.isEmpty_iff.mpr empty), ?_⟩
          simp only [if_pos some]
        · obtain rfl := Nat.eq_zero_of_not_pos some
          exact .inl rfl
  have signalled : ∀ (o : Outlet ι) (s : σ), (o.signal ch s).2.1.conduit = o.conduit := by
    intro o s
    simp only [Outlet.signal]
    split <;> rfl
  have passed := drained { outlet with channel := some ch }
  simp only [Outlet.flush]
  split
  · exact .inl rfl
  · split
    next failed =>
      rw [failed] at passed
      exact passed
    next flushed =>
      rw [flushed] at passed
      rw [signalled]
      exact passed

namespace Writing

variable [Transport ι σ]

/-- Every step of a write is such a section. -/
theorem step_moves (writing : Writing ι) (outlet : Outlet ι) (s : σ) :
    ∃ piece, writing.Moves outlet (writing.step outlet s).2.1 (writing.step outlet s).2.2.1 piece := by
  cases writing with
  | placing rest => exact outlet.place_moves rest (.placing rest) fun _ h => h.symm
  | asleep rest since =>
    simp only [step]
    split
    · exact ⟨[], .idle outlet fun _ h => h⟩
    · exact outlet.place_moves rest (.asleep rest since) fun _ h => h.symm
  | asking ch rest =>
    refine ⟨[], .idle outlet fun left h => ?_⟩
    obtain rfl : rest = left := h
    exact left_ofRest rest
  | done result => exact ⟨[], .idle outlet fun _ h => h⟩

/-- A write does nothing to its channels but ask them for a flush. -/
theorem step_asks (writing : Writing ι) (outlet : Outlet ι) (s : σ) :
    ∃ ch : Option ι, (writing.step outlet s).2.2.2 = Transport.requestOutput ch s := by
  cases writing with
  | asking ch rest => exact ⟨some ch, rfl⟩
  | asleep rest since =>
    simp only [step]
    split
    · exact ⟨none, rfl⟩
    · exact ⟨none, rfl⟩
  | _ => exact ⟨none, rfl⟩

omit [Transport ι σ] in
theorem timeOut_moves (writing : Writing ι) (outlet : Outlet ι) :
    writing.Moves outlet (writing.timeOut outlet) outlet [] := by
  cases writing with
  | asleep rest since =>
    simp only [timeOut]
    split
    · exact .idle outlet fun _ _ => trivial
    · exact .idle outlet fun _ h => h
  | _ => exact .idle outlet fun _ h => h

end Writing
end Sluice

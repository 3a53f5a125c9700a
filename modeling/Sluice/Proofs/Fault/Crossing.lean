import Sluice.Fault

/-! Faults that leave as system errors, come back, and leave again. However often that happens, an abort stays one,
and only the failure of a handler hides it. -/
namespace Sluice

namespace Fault

/-- A system error that came in. -/
def isIo : Fault → Bool
  | io .. | ioOf .. => true
  | _ => false

def isBare : Fault → Bool
  | ioOf .. | handlerOf .. | handlerIo .. | handlerIoOf .. => false
  | _ => true

/-- A fault that left as a system error and came back. -/
def crossed (fault : Fault) : Fault := ofSystem fault.toSystem

/-- A fault inside system errors of these kinds, the outermost first. -/
def enclosed (kinds : List ErrorKind) (fault : Fault) : Fault := kinds.foldr ioOf fault

private theorem toSystem_ofSystem (error : SystemError) : (ofSystem error).toSystem = error := by
  cases error with
  | plain kind text => rfl
  | carrying kind cause => rfl

private theorem toSystem_crossed (fault : Fault) : fault.crossed.toSystem = fault.toSystem :=
  toSystem_ofSystem fault.toSystem

private theorem crossed_crossed (fault : Fault) : fault.crossed.crossed = fault.crossed :=
  congrArg ofSystem fault.toSystem_crossed

private theorem crossed_of_isIo {fault : Fault} (io : fault.isIo = true) : fault.crossed = fault := by
  cases fault with
  | io kind text => rfl
  | ioOf kind cause => rfl
  | _ => cases io

private theorem toSystem_of_not_isIo {fault : Fault} (other : fault.isIo = false) :
    fault.toSystem = .carrying (if fault = .aborted then .connectionAborted
      else if fault = .timeout then .timedOut else .other) fault := by
  cases fault with
  | io kind text => cases other
  | ioOf kind cause => cases other
  | _ => rfl

private theorem isAborted_crossed (fault : Fault) : fault.crossed.isAborted = fault.isAborted := by
  cases io : fault.isIo with
  | true => rw [crossed_of_isIo io]
  | false =>
    rw [crossed, toSystem_of_not_isIo io]
    rfl

private theorem isAborted_enclosed (kinds : List ErrorKind) (fault : Fault) :
    (enclosed kinds fault).isAborted = fault.isAborted := by
  induction kinds with
  | nil => rfl
  | cons kind kinds ih => exact ih

/-- An abort is one under any number of system errors, with nothing else in between. -/
theorem isAborted_iff_enclosed (fault : Fault) :
    fault.isAborted = true ↔ ∃ kinds, fault = enclosed kinds .aborted := by
  constructor
  · intro aborted
    induction fault with
    | aborted => exact ⟨[], rfl⟩
    | ioOf kind cause ih =>
      obtain ⟨kinds, rfl⟩ := ih aborted
      exact ⟨kind :: kinds, rfl⟩
    | _ => cases aborted
  · rintro ⟨kinds, rfl⟩
    exact isAborted_enclosed kinds .aborted

end Fault

/-- An error on either side of the boundary. -/
inductive Trouble
  | inside (fault : Fault)
  | outside (error : SystemError)

/-- How one error is made of another: a fault goes out as a system error, a system error comes in as a fault, a fault
becomes the payload of a new system error, or an error of either kind is reported as the failure of a handler. -/
inductive Conversion
  | goOut
  | comeIn
  | enclose (kind : ErrorKind)
  | report

namespace Trouble

def isAborted : Trouble → Bool
  | inside fault => fault.isAborted
  | outside error => (Fault.ofSystem error).isAborted

/-- What a conversion makes of an error, if the error is on the side where it starts. -/
def convert : Trouble → Conversion → Option Trouble
  | inside fault, .goOut => some (outside fault.toSystem)
  | outside error, .comeIn => some (inside (.ofSystem error))
  | inside fault, .enclose kind => some (outside (.carrying kind fault))
  | inside fault, .report => some (inside (.handlerOf fault))
  | outside error, .report => some (inside (.ofHandler error))
  | _, _ => none

/-- What one conversion after the other makes of an error. -/
def convertAll (trouble : Trouble) (path : List Conversion) : Option Trouble := path.foldlM convert trouble

private theorem convertAll_cons (trouble : Trouble) (c : Conversion) (path : List Conversion) :
    trouble.convertAll (c :: path) = (trouble.convert c).bind (·.convertAll path) := rfl

private theorem convertAll_append (trouble : Trouble) (path path' : List Conversion) :
    trouble.convertAll (path ++ path') = (trouble.convertAll path).bind (·.convertAll path') :=
  List.foldlM_append

private theorem isAborted_convert {trouble trouble' : Trouble} {c : Conversion}
    (made : trouble.convert c = some trouble') :
    trouble'.isAborted = true ↔ trouble.isAborted = true ∧ c ≠ .report := by
  cases trouble with
  | inside fault =>
    cases c with
    | goOut =>
      obtain rfl := Option.some.inj made
      have same : (Fault.ofSystem fault.toSystem).isAborted = fault.isAborted := fault.isAborted_crossed
      simp [isAborted, same]
    | comeIn => cases made
    | enclose kind =>
      obtain rfl := Option.some.inj made
      simp [isAborted, Fault.ofSystem, Fault.isAborted]
    | report =>
      obtain rfl := Option.some.inj made
      simp [isAborted, Fault.isAborted]
  | outside error =>
    cases c with
    | comeIn =>
      obtain rfl := Option.some.inj made
      simp [isAborted]
    | report =>
      obtain rfl := Option.some.inj made
      cases error <;> simp [isAborted, Fault.ofHandler, Fault.isAborted]
    | goOut => cases made
    | enclose kind => cases made

/-- An abort is seen at the end of a way on which nothing was reported, and at the end of no other way. -/
theorem isAborted_convertAll {path : List Conversion} {trouble trouble' : Trouble}
    (made : trouble.convertAll path = some trouble') :
    trouble'.isAborted = true ↔ trouble.isAborted = true ∧ .report ∉ path := by
  induction path generalizing trouble with
  | nil =>
    obtain rfl := Option.some.inj made
    simp
  | cons c path ih =>
    rw [convertAll_cons] at made
    obtain ⟨between, first, rest⟩ := Option.bind_eq_some_iff.mp made
    rw [ih rest, isAborted_convert first, List.mem_cons, not_or, and_assoc]
    exact and_congr_right fun _ => and_congr_left fun _ => ne_comm

end Trouble

namespace Fault

/-- A fault that conversions made of one with no other error inside. -/
def Made (fault : Fault) : Prop :=
  ∃ origin path, origin.isBare = true ∧ (Trouble.inside origin).convertAll path = some (.inside fault)

private theorem Made.onward {cause fault : Fault} (made : cause.Made) {path : List Conversion}
    (goes : (Trouble.inside cause).convertAll path = some (.inside fault)) : fault.Made := by
  obtain ⟨origin, before, bare, made⟩ := made
  refine ⟨origin, before ++ path, bare, ?_⟩
  rw [Trouble.convertAll_append, made]
  exact goes

private theorem made (fault : Fault) : fault.Made := by
  induction fault with
  | ioOf kind cause ih =>
    exact ih.onward (show (Trouble.inside cause).convertAll [.enclose kind, .comeIn] = _ from rfl)
  | handlerOf cause ih => exact ih.onward (show (Trouble.inside cause).convertAll [.report] = _ from rfl)
  | handlerIo kind text => exact ⟨.io kind text, [.goOut, .report], rfl, rfl⟩
  | handlerIoOf kind cause ih =>
    exact ih.onward (show (Trouble.inside cause).convertAll [.enclose kind, .report] = _ from rfl)
  | _ => exact ⟨_, [], rfl, rfl⟩

end Fault

/-- What crosses the boundary and comes back is an abort if it was one. From then on it crosses as the same system
error, and what came in as one goes out as it was. Any other fault goes out as the payload of a new system error, of a
kind that tells aborts and timeouts from the rest. The aborts are those under any number of system errors and nothing
else. Every fault is made by conversions of one with no other error inside, and what conversions make of a fault is an
abort if the fault is one and nothing was reported on the way. -/
theorem abort_crosses_boundary (fault : Fault) :
    fault.crossed.isAborted = fault.isAborted ∧
    fault.crossed.crossed = fault.crossed ∧ fault.crossed.toSystem = fault.toSystem ∧
    (fault.isIo = true → fault.crossed = fault) ∧
    (fault.isIo = false → fault.toSystem.inner = some fault ∧ fault.toSystem.kind =
      if fault = .aborted then .connectionAborted else if fault = .timeout then .timedOut else .other) ∧
    (fault.isAborted = true ↔ ∃ kinds, fault = .enclosed kinds .aborted) ∧
    fault.Made ∧
    ∀ path trouble, (Trouble.inside fault).convertAll path = some trouble →
      (trouble.isAborted = true ↔ fault.isAborted = true ∧ .report ∉ path) := by
  refine ⟨fault.isAborted_crossed, fault.crossed_crossed, fault.toSystem_crossed, Fault.crossed_of_isIo,
    fun other => ?_, fault.isAborted_iff_enclosed, fault.made, fun path trouble made => ?_⟩
  · rw [Fault.toSystem_of_not_isIo other]
    exact ⟨rfl, rfl⟩
  · exact Trouble.isAborted_convertAll made

/-- An abort goes out and comes in twice, each time with a new system error around it, and then goes out inside the
failure of a handler. -/
theorem abort_crosses_boundary_twice :
    let abort : Fault := .ioOf .brokenPipe (.ioOf .connectionAborted .aborted)
    let failure : Fault := .handlerIoOf .other abort
    let path : List Conversion := [.goOut, .comeIn, .enclose .brokenPipe, .comeIn]
    abort.isIo = true ∧ failure.isIo = false ∧
    (Trouble.inside .aborted).convertAll path = some (.inside abort) ∧
    (Trouble.inside abort).convertAll [.enclose .other, .report, .goOut] = some (.outside failure.toSystem) ∧
    abort.isAborted = true ∧ abort.crossed = abort ∧ failure.toSystem.kind = .other ∧
    (Trouble.outside failure.toSystem).isAborted = false := by
  intro abort failure path
  obtain ⟨_, _, _, _, _, _, _, onward⟩ := abort_crosses_boundary .aborted
  obtain ⟨_, _, _, same, _, _, _, reported⟩ := abort_crosses_boundary abort
  obtain ⟨_, _, _, _, fresh, _, _, _⟩ := abort_crosses_boundary failure
  have arrived : (Trouble.inside .aborted).convertAll path = some (.inside abort) := rfl
  have left : (Trouble.inside abort).convertAll [.enclose .other, .report, .goOut] =
      some (.outside failure.toSystem) := rfl
  refine ⟨rfl, rfl, arrived, left, (onward _ _ arrived).mpr ⟨rfl, by simp [path]⟩, same rfl, (fresh rfl).2, ?_⟩
  exact Bool.eq_false_iff.mpr fun seen => ((reported _ _ left).mp seen).2 (by simp)

end Sluice

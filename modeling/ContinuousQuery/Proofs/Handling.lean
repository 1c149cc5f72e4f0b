import ContinuousQuery.Topology.Driver
import ContinuousQuery.Proofs.StageTrees

/-!
Processors that work in place. A processor that handles a record changes stores and forwards
records as it goes, and nobody takes anything back if it fails halfway. But every check comes
before the first change, so a processor that fails leaves nothing behind.
-/

namespace ContinuousQuery

/-- What a processor may change while it handles a record. -/
structure Surroundings where
  stores : Stores
  /-- The records for the children, the oldest first. -/
  forwarded : List Record

abbrev Handling := EStateM ProcessorError Surroundings

namespace Processor

def forward (output : Record) : Handling Unit :=
  modify (fun around => { around with forwarded := around.forwarded ++ [output] })

def writeStore (name : String) (store : Store) : Handling Unit :=
  modify (fun around => { around with stores := OrderedMap.insert around.stores name store })

def handle (processor : Processor) (attached : List String) (record : Record) : Handling Unit :=
  match processor.kind, record with
  | .stage (.pattern triple) side _, .statement statement =>
    match triple.matchStatement statement with
    | none => pure ()
    | some solution => forward (.result (.ofSide side solution))
  | .stage (.projection function) side _, .result result =>
    forward (.result (.ofSide side (function.project result.solution)))
  | .stage (.join joinType keys) side name, .result (.binary arrival solution) => do
    match Stores.open? (← get).stores attached name with
    | none => throw (.missingStateStore processor.id name)
    | some store =>
      match keys.insert? store arrival solution with
      | none => pure ()
      | some grown =>
        writeStore name grown
        (joinType.onArrival arrival solution (keys.candidates grown arrival solution)).forM
          (fun joined => forward (.result (.ofSide side joined)))
  | .formatter, .result result => forward (.solution result.solution)
  | _, record => throw (.unexpectedRecord processor.id record.kindName)

theorem run_forM_forward (solutions : List Solution) (side : Option Side) (around : Surroundings) :
    (solutions.forM (fun solution => forward (.result (.ofSide side solution)))).run around =
      .ok () { around with forwarded :=
        around.forwarded ++ solutions.map (fun solution => .result (.ofSide side solution)) } := by
  induction solutions generalizing around with
  | nil =>
    rw [List.map_nil, List.append_nil]
    rfl
  | cons solution rest ih =>
    rw [List.map_cons, List.append_cons]
    exact ih _

/-- Work in place does what the processor says, and an error leaves everything as it was. -/
theorem run_handle (processor : Processor) (attached : List String) (record : Record)
    (around : Surroundings) :
    (processor.handle attached record).run around =
      match processor.process attached around.stores record with
      | .ok (outputs, stores) => .ok () ⟨stores, around.forwarded ++ outputs⟩
      | .error error => .error error around := by
  obtain ⟨id, kind⟩ := processor
  cases kind with
  | formatter => cases record <;> rfl
  | stage capability side name =>
    cases capability with
    | projection function => cases record <;> rfl
    | pattern triple =>
      cases record with
      | statement statement =>
        simp only [handle, process]
        cases triple.matchStatement statement with
        | none =>
          rw [Option.toList_none, List.map_nil, List.append_nil]
          rfl
        | some solution => rfl
      | _ => rfl
    | join joinType keys =>
      cases record with
      | result result =>
        cases result with
        | unary solution => rfl
        | binary arrival solution =>
          simp only [handle, process, run_get_bind]
          cases opened : Stores.open? around.stores attached name with
          | none => rfl
          | some store =>
            simp only [join]
            cases inserted : keys.insert? store arrival solution with
            | none =>
              have found := (Stores.open?_eq_some_iff.mp opened).2
              simp only [List.map_nil, List.append_nil, OrderedMap.insert_eq_self found]
              rfl
            | some grown => exact run_forM_forward _ _ _
      | _ => rfl

theorem eq_of_handle_eq_error {processor : Processor} {attached : List String} {record : Record}
    {around after : Surroundings} {error : ProcessorError}
    (failed : (processor.handle attached record).run around = .error error after) :
    after = around := by
  rw [run_handle] at failed
  split at failed
  next => cases failed
  next =>
    cases failed
    rfl

end Processor

end ContinuousQuery

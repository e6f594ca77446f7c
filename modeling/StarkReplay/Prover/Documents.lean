import StarkReplay.Fri.Parameters
import StarkReplay.Json.Literal
import StarkReplay.Json.Write

/-!
The two documents that drive a prover: its parameters, which hold the FRI schedule for the trace,
and its configuration, which sizes its tasks. The number of steps is given, or read from the
public input of an AIR.
-/
namespace StarkReplay.Prover

/-- The logarithm of the number of cosets in the evaluation domain, unless another one is given. -/
def defaultLogCosets : Int := 2

def friDocument (p : Fri.Parameters) : Json :=
  .obj [
    ("fri_step_list", .arr (p.stepList.map .int)),
    ("last_layer_degree_bound", .int p.lastLayerDegreeBound),
    ("n_queries", .int p.queries),
    ("proof_of_work_bits", .int p.workBits)]

def parametersDocument (p : Fri.Parameters) : Json :=
  .obj [
    ("field", .str "PrimeField0"),
    ("channel_hash", .str "poseidon3"),
    ("commitment_hash", .str "keccak256_masked160_lsb"),
    ("n_verifier_friendly_commitment_layers", .int 9999),
    ("pow_hash", .str "keccak256"),
    ("statement", .obj [("page_hash", .str "pedersen")]),
    ("stark", .obj [("fri", friDocument p), ("log_n_cosets", .int defaultLogCosets)]),
    ("use_extension_field", .bool false),
    ("verifier_friendly_channel_updates", .bool true),
    ("verifier_friendly_commitment_hash", .str "poseidon3")]

def configDocument : Json :=
  .obj [
    ("constraint_polynomial_task_size", .int 256),
    ("n_out_of_memory_merkle_layers", .int 0),
    ("table_prover_n_tasks_per_segment", .int 32)]

/-- The text of the parameters for a trace of so many steps. -/
def parametersText (steps : Int) : Except Failure Text := do
  let p ← Fri.parameters (some Fri.maxEntries) steps
  return (parametersDocument p).write .indented

def configText : Text := configDocument.write .indented

/-- The number of steps that the public input of an AIR gives. -/
def stepsOf (publicInput : Json.Fields) : Except Failure Int :=
  match publicInput.get? "n_steps" with
  | some (.int n) =>
    if n < 1 then .error (.invalidStepCount (Numeral.integer n)) else .ok n
  | some v => .error (.invalidStepCount v.literal)
  | none => .error (.invalidStepCount Json.null.literal)

def parametersTextOf (publicInput : Json.Fields) : Except Failure Text := do
  parametersText (← stepsOf publicInput)

/-! ## Public inputs -/

def hexMark : Text := "0x"

/-- A value of the public memory with the mark of a hexadecimal numeral in front. -/
def markValue : Json → Json
  | .str t => if hexMark.isPrefixOf t then .str t else .str (hexMark ++ t)
  | v => v

/-- An item of the public memory with its value marked. -/
def markItem : Json → Json
  | .obj fields =>
    match Json.Fields.get? fields "value" with
    | some v => .obj (Json.Fields.set fields "value" (markValue v))
    | none => .obj fields
  | v => v

/-- The public input with the values of its public memory marked as hexadecimal. -/
def markMemory (publicInput : Json.Fields) : Json.Fields :=
  match publicInput.get? "public_memory" with
  | some (.arr items) => publicInput.set "public_memory" (.arr (items.map markItem))
  | _ => publicInput

end StarkReplay.Prover

import StarkReplay.Felt.ShortString

/-!
Layouts. A layout fixes which builtins a trace has room for; a verifier for it has to know how
many columns are committed and how many values are sampled outside the domain.
-/
namespace StarkReplay

inductive Layout where
  | plain
  | small
  | dex
  | recursive
  | starknet
  | starknetWithKeccak
  | recursiveLargeOutput
  | recursiveWithPoseidon
  | allSolidity
  | allCairo
  | dynamic
  deriving DecidableEq

namespace Layout

def name : Layout → Text
  | plain => "plain"
  | small => "small"
  | dex => "dex"
  | recursive => "recursive"
  | starknet => "starknet"
  | starknetWithKeccak => "starknet_with_keccak"
  | recursiveLargeOutput => "recursive_large_output"
  | recursiveWithPoseidon => "recursive_with_poseidon"
  | allSolidity => "all_solidity"
  | allCairo => "all_cairo"
  | dynamic => "dynamic"

def all : List Layout :=
  [plain, small, dex, recursive, starknet, starknetWithKeccak, recursiveLargeOutput,
    recursiveWithPoseidon, allSolidity, allCairo, dynamic]

def ofName (t : Text) : Except Failure Layout :=
  match all.find? (fun l => l.name = t) with
  | some l => .ok l
  | none => .error (.unsupportedLayout t)

/-- The name as one field element, as a public input declares it. -/
def shortString (l : Layout) : Except Failure Int := ShortString.encode l.name

/-- What a verifier has to know of a layout. -/
structure Params where
  originalColumns : Nat
  interactionColumns : Nat
  maskSize : Nat
  constraintDegree : Nat
  deriving DecidableEq

def Params.oodsValues (p : Params) : Nat := p.maskSize + p.constraintDegree

/-- The elements opened for each query in all three trace commitments. -/
def Params.rowWidth (p : Params) : Nat :=
  p.originalColumns + p.interactionColumns + p.constraintDegree

/-- The layouts with a verifier. -/
def params? : Layout → Option Params
  | dex => some ⟨21, 1, 200, 2⟩
  | recursive => some ⟨7, 3, 133, 2⟩
  | recursiveWithPoseidon => some ⟨6, 2, 192, 2⟩
  | small => some ⟨23, 2, 201, 2⟩
  | starknet => some ⟨9, 3, 271, 2⟩
  | starknetWithKeccak => some ⟨12, 3, 734, 2⟩
  | _ => none

/-- The layout of a name and its parameters, if it has a verifier. -/
def resolve (t : Text) : Except Failure (Layout × Params) := do
  let l ← ofName t
  match l.params? with
  | some p => return (l, p)
  | none => .error (.unsupportedLayout l.name)

theorem ofName_name (l : Layout) : ofName l.name = .ok l := by
  cases l <;> rfl

end Layout

end StarkReplay

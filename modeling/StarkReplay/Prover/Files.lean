import StarkReplay.FileTree.Write
import StarkReplay.Prover.Documents

/-!
The files of a prover's two documents.
-/
namespace StarkReplay.Prover

/-- Writes the parameters and then the configuration into a directory. -/
def writeFiles (steps : Int) (directory : Path) : FileM (List Path) := do
  let parametersPath := directory ++ [Text.ofString "prover_parameters.json"]
  let configPath := directory ++ [Text.ofString "prover_config.json"]
  let text ← parametersText steps
  FileTree.writeText parametersPath text
  FileTree.writeText configPath configText
  return [parametersPath, configPath]

end StarkReplay.Prover

import DeadExports.Proofs.Prune.Pass

set_option autoImplicit false

namespace DeadExports

namespace Project

section Dependencies

variable {project : Project} {importer file : Path} {facts : Facts} {names : List String}

end Dependencies
end Project

namespace SourceModule

def exports (m : SourceModule) :
    List ExportBinding := m.statements.flatMap (Tree.exportBindings m.text)

end SourceModule

namespace Workspace

def beside (text : String) :
    List (Path × String) := [(⟨"/f.ts"⟩, "export let x;\n"), (⟨"/g.ts"⟩, text)]

def forwarding : List (Path × String) :=
  [(⟨"/f.ts"⟩, "export { y } from './g';\n"),
    (⟨"/g.ts"⟩, "export let y;\nimport { y as z } from './f';\n")]

end Workspace
end DeadExports

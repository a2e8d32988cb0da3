import AbiBuild.Session.Basic

/-!
# Sessions in every order of edges

The edges of a class are a set and may come in any order when a surface is taken in.  A build takes
them as they are sorted.
-/

namespace AbiBuild.Session

open Files Dependency SessionAction

def learnAlong (order : EdgeOrder) (session : Session) (abi : SourceAbi) (source : Path) : Session :=
  { session with graph := session.graph.updateAlong order abi }.record abi.className source

def refreshOneAlong (order : EdgeOrder) (toolchain : Toolchain) (outputRoot : Path)
    (declaration : Declaration) : SessionAction Unit := do
  let unit := Outputs.unitPath outputRoot declaration.name toolchain.outputExtension
  let abi ← consult fun _ files => toolchain.surfaceOf files unit
  revise (·.learnAlong order abi declaration.source)

/-- Reads the surfaces of freshly compiled sources again.  The order may change from one surface to
the next. -/
def refreshAlong (orders : Nat → EdgeOrder) (toolchain : Toolchain) (outputRoot : Path)
    (sources : List Path) : SessionAction Unit := do
  let batch ← sources.mapM fun source => do
    let name ← consult fun _ files => toolchain.typeDeclaredBy files source
    pure (Declaration.mk source name)
  batch.forM (forgetPrevious toolchain outputRoot batch)
  batch.zipIdx.forM fun entry => refreshOneAlong (orders entry.2) toolchain outputRoot entry.1

end AbiBuild.Session

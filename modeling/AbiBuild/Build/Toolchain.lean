import AbiBuild.Abi
import AbiBuild.Build.World

/-!
# Toolchains

What a build has to know about one language: what type a source file declares, what a compiled unit
exposes, and how to run the compiler.
-/

namespace AbiBuild

open Files

structure CompileRequest where
  outputRoot : Path
  classpath : PathSet
  /-- Outputs that stay valid and that the compiler has to find. -/
  precompiled : PathSet
  sources : PathSet

structure Toolchain where
  /-- The surface of the source file whose compiled unit is at a path. -/
  surfaceOf : FileSystem → Path → Except BuildError SourceAbi
  /-- The top-level type that the source file at a path declares. -/
  typeDeclaredBy : FileSystem → Path → Except BuildError String
  /-- Runs the compiler; zero is success. -/
  compile : CompileRequest → BuildAction Int
  sourceExtension : String
  outputExtension : String

end AbiBuild

import VersionSweep.Compiler.Dialect
import VersionSweep.Compiler.Target
import VersionSweep.Setting.Catalog

/-!
# Compiler versions

A compiler version is known by its version text.  The dialect follows from it, and with the dialect
the settings that the version declares.
-/

namespace VersionSweep

structure Compiler where
  version : String
  deriving DecidableEq, Repr

namespace Compiler

def dialect (compiler : Compiler) : Dialect :=
  .ofVersion compiler.version

def sharedSettings : List Setting :=
  [.choice "target" [("es3", 0), ("es5", Target.es5), ("es2015", Target.es2015), ("es2020", 7),
      ("esnext", 99)],
    .choice "module" [("none", 0), ("commonjs", 1), ("amd", 2), ("umd", 3), ("system", 4),
      ("es2015", 5), ("esnext", 99)],
    .choice "newLine" [("crlf", 0), ("lf", 1)],
    .boolean "strict",
    .boolean "strictNullChecks",
    .boolean "noImplicitAny",
    .boolean "alwaysStrict",
    .boolean "declaration",
    .boolean "noEmit",
    .boolean "noLib",
    .boolean "removeComments",
    .string "outDir",
    .list "lib" .string,
    .list "types" .string,
    .number "maxNodeModuleJsDepth"]

/-- The settings that a version declares, in order. -/
def declared (compiler : Compiler) : List Setting :=
  sharedSettings ++
    if compiler.dialect.hasIsolatedDeclarations then [.boolean "isolatedDeclarations"] else []

def catalog (compiler : Compiler) : Catalog :=
  .ofList compiler.declared

/-- The settings that a fresh session starts with: none is set. -/
def defaultSettings (_compiler : Compiler) : Assignment :=
  .empty

end Compiler

end VersionSweep

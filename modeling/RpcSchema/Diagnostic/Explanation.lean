/-
  RpcSchema.Diagnostic.Explanation
  ────────────────────────────────
  **What each code of a compile error means, and what to do about it.**
-/
import RpcSchema.Diagnostic.Code
import RpcSchema.Text.Lines

namespace RpcSchema.DiagnosticCode

/-- The explanation of a code. -/
def explanation : DiagnosticCode → String
  | .e0001 => Text.ofLines
    ["# E0001: Package Load Failure",
     "",
     "The type loader could not produce a symbol table for the requested package.",
     "",
     "## Common Causes",
     "",
     "- The manifest file does not exist under the manifest root",
     "- The manifest is not valid JSON or has unknown keys",
     "- A type expression could not be parsed (`[4]int`, `interface\x7b M() \x7d`)",
     "- A type is referenced but never declared, or declared twice",
     "- The manifest's `path` does not match the requested package",
     "",
     "## Example",
     "",
     "```text",
     "error[E0001]: unknown type `Ghost`",
     "```",
     "",
     "## Solution",
     "",
     "Fix the manifest so that every referenced type is declared exactly once and",
     "the package path matches `--package`."]
  | .e0002 => Text.ofLines
    ["# E0002: Missing Entrypoint",
     "",
     "The entrypoint type named with `--entrypoint` is not declared by the loaded",
     "package.",
     "",
     "## Example",
     "",
     "```text",
     "error[E0002]: entrypoint type `Sesion` not found in package `github.com/acme/chat`",
     "```",
     "",
     "## Solution",
     "",
     "Check the spelling of the entrypoint and that it is declared in the package",
     "given by `--package`, not in a package it imports."]
  | .e1001 => Text.ofLines
    ["# E1001: Unsupported Scalar",
     "",
     "A basic type has no counterpart in the schema's scalar vocabulary.",
     "",
     "Supported basic types and their schema scalars:",
     "",
     "| Native | Schema |",
     "|---|---|",
     "| `int`, `int8`, `int16`, `int32` | `int32` |",
     "| `uint`, `uint8`, `uint16`, `uint32` | `uint32` |",
     "| `int64` | `int64` |",
     "| `uint64` | `uint64` |",
     "| `float32` | `float` |",
     "| `float64` | `double` |",
     "| `bool` | `bool` |",
     "| `string` | `string` |",
     "",
     "`uintptr`, `complex64`, `complex128` and `unsafe.Pointer` cannot be mapped.",
     "",
     "## Example",
     "",
     "```text",
     "error[E1001]: unsupported scalar `complex128`",
     "  in field `Phase` of `Signal`",
     "```",
     "",
     "## Solution",
     "",
     "Exclude the method that reaches the type with `--exclude`, or mark the",
     "owning type as fieldless with `--fieldless`."]
  | .e1002 => Text.ofLines
    ["# E1002: Unsupported Shape",
     "",
     "A type's shape falls outside what the compiler can convert.",
     "",
     "The most common case is an unnamed interface with methods, such as a field",
     "declared as `interface\x7b Close() error \x7d`. Only named interfaces carry enough",
     "information to discover their implementations.",
     "",
     "## Example",
     "",
     "```text",
     "error[E1002]: unsupported interface type `interface\x7b Close() \x7d`",
     "  in field `Closer` of `Conn`",
     "```",
     "",
     "## Solution",
     "",
     "Declare the interface as a named type, or mark the owning type as fieldless",
     "with `--fieldless`."]
  | .e1003 => Text.ofLines
    ["# E1003: Unsupported Map Key",
     "",
     "Map keys in the schema must be integral, boolean or string scalars. Floating",
     "point keys, messages, lists and other maps cannot be keys. Enum keys are",
     "emitted as `int32`.",
     "",
     "## Example",
     "",
     "```text",
     "error[E1003]: unsupported map key `double` in `map[float64]string`",
     "  in field `Weights` of `Model`",
     "```",
     "",
     "## Solution",
     "",
     "Change the key type in the source package, or exclude the method that",
     "reaches it."]
  | .e2001 => Text.ofLines
    ["# E2001: Duplicate Type Name",
     "",
     "Two distinct definitions would be emitted under the same name.",
     "",
     "This happens when a struct is named like a synthesized message, for example",
     "a struct `GetUserRequest` next to a method `GetUser`, or when a foreign type",
     "shares its name with a local one (`time.Duration` and `Duration`).",
     "",
     "## Example",
     "",
     "```text",
     "error[E2001]: type name `GetUserRequest` is defined more than once",
     "```",
     "",
     "## Solution",
     "",
     "Rename one of the source types, or exclude the method whose request or",
     "response message collides."]

end RpcSchema.DiagnosticCode

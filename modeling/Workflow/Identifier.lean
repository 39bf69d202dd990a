import Workflow.Text.Hex
/-!
Identifiers of executions and executors: 32 hexadecimal digits, no two alike.
-/

namespace Workflow.Identifier

/-- An odd number, by which multiplication modulo `2 ^ 128` loses nothing. -/
def spread : Nat := 0x9e3779b97f4a7c15f39cc0605cedc835

def spell (n : Nat) : String :=
  String.ofList (Text.hexDigits 32 ((n + 1) * spread % Nat.pow 2 128))

def isWellFormed (id : String) : Bool :=
  id.toList.length == 32 && id.toList.all fun c => c.isDigit || ('a' ≤ c && c ≤ 'f')

end Workflow.Identifier

import Mathlib.Tactic.TypeStar

/-!
# Stream events

What a line of Claude Code's stream-json output means to the supervisor.
-/

namespace Silta

namespace Stream

inductive Event
  | init (sessionId version : String)
  /-- `synthetic` marks a message Claude Code wrote itself rather than one a model produced. -/
  | assistant (subagent : Bool) (contextTokens : Option Nat) (synthetic : Bool)
  | user (person : Bool)
  | result (isError person : Bool)
  | backgroundTasks (ids : List String)
  | compacted (auto : Bool)
  | compactionFailed
  | contextUsage (requestId : String) (maxTokens : Option Nat)
  | modelFallback (trigger : String)
  | other
  deriving DecidableEq, Repr

end Stream

end Silta

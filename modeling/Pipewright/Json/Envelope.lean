import Pipewright.Json

/-!
# Envelopes of machine-readable output

Every machine-readable answer is an object with a `status`. The fields of a good answer stand
beside the status; an answer that is no object stands under `data`.

## Main definitions

* `Envelope.ok`, `Envelope.error`: the two kinds of answer.
-/

namespace Pipewright.Envelope

/-- A good answer. -/
def ok (body : Json) : Json :=
  match body with
  | .object members => .object (Json.put "status" (.string "ok") members)
  | other => .object [("data", other), ("status", .string "ok")]

/-- An error with its message. -/
def error (message : String) : Json :=
  .object [("error", .string message), ("status", .string "error")]

end Pipewright.Envelope

import NullGuard.Summary.Cache

/-!
# Scripted requests

A `Request` describes a request to a summary cache together with the computation it runs on
a miss: first its nested requests, in order; then, if it carries a failure message, it fails
with that message; otherwise it answers its value and the replies to its nested requests,
marked transient when asked. A nested request for a key still being computed gets its
fallback. A request under a key the cache cannot hold stops the script when it is reached,
and only then: the nested requests of a hit are never reached. A guarded request is one whose
failure the computation making it catches, going on with the value it was given.

Scripts like these exercise every path of `SummaryCache.getOrCompute`: hits, misses, requests
that would wait on themselves, transient values, failures that release their claims, and
computations that go on after a nested failure.
-/

namespace NullGuard

/-- A request to a cache and the computation it runs on a miss. -/
inductive Request (κ ν : Type) where
  /-- A request for a key. -/
  | mk (key : κ) (value : ν) (transient : Bool) (failure : Option String) (fallback : ν)
      (nested : List (Request κ ν))
  /-- A request under a key the cache cannot hold, for the reason given. -/
  | unusable (reason : String)
  /-- A request whose failure is caught, answering the fallback `recovered` instead. -/
  | guarded (request : Request κ ν) (recovered : ν)

/-- Why a script stopped: a computation failed with its message, or a request reached a key
the cache cannot hold. -/
inductive ScriptError where
  | failed (message : String)
  | rejected (reason : String)

/-- What a request is answered: a computed value with the replies to its nested requests, or a
fallback value. -/
inductive Reply (ν : Type) where
  | computed (value : ν) (nested : List (Reply ν))
  | fallback (value : ν)

/-- Running scripts: the cache of replies as state, stopping with a script error. -/
abbrev ScriptM (κ ν : Type) := ExceptT ScriptError (StateM (SummaryCache κ (Reply ν)))

namespace Request

variable {κ ν : Type} [DecidableEq κ]

mutual

/-- Serve a request through the cache. -/
def run : Request κ ν → ScriptM κ ν (Reply ν)
  | .mk key value transient failure fallback nested =>
    SummaryCache.getOrCompute get set key (.fallback fallback) do
      let replies ← runAll nested
      match failure with
      | some msg => throw (.failed msg)
      | none =>
        let reply := Reply.computed value replies
        pure (if transient then .transient reply else .keep reply)
  | .unusable reason => throw (.rejected reason)
  | .guarded r recovered => tryCatch (run r) fun _ => pure (.fallback recovered)

/-- Serve requests in order. -/
def runAll : List (Request κ ν) → ScriptM κ ν (List (Reply ν))
  | [] => pure []
  | r :: rs => do
    let x ← run r
    let xs ← runAll rs
    pure (x :: xs)

end

end Request

end NullGuard

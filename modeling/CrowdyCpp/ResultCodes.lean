import Mathlib.Data.List.Basic

/-!
# Result codes and byte strings

`core/result.hpp`: the error codes every layer of the client answers with.  A
`Status` is a bare code, `Ok` being success, so the model uses `Errc` for both.
-/

namespace CrowdyCpp

/-- `enum class Errc` of `core/result.hpp`. -/
inductive Errc where
  | ok
  | invalidArgument
  | bufferTooSmall
  | malformed
  | hmacMismatch
  | notConnected
  | socketError
  | timeout
  | tokenExpired
  | rejected
  | closed
  | cryptoUnavailable
  | wouldBlock
  | cancelled
deriving DecidableEq, Repr

/-- The bytes of a datagram, of a message or of a name on the wire. -/
abbrev Bytes := List UInt8

end CrowdyCpp

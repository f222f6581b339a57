/-!
# Faults

A fault is what no caller may bring about: it ends the whole run, unlike an
`Error`, which is an answer.  Faults stand for reading or writing where there is no live
object, for sizes beyond the machine's range and for broken promises between a caller
and the code it calls.

## Main definitions

* `Fault` — the causes.
-/

namespace PullIter

/-- The cause of a fault. -/
inductive Fault
  /-- A field with alignment zero was to be placed. -/
  | zeroAlignment
  /-- A size or an offset left the range of 32 bits. -/
  | sizeOverflow
  /-- A scalar was to be read from a number of bytes that cannot hold one. -/
  | scalarWidth (bytes : Nat)
  /-- An argument was to be stored in a field it does not fit. -/
  | argumentWidth (field argument : Nat)
  /-- Bytes were to be read behind the end of a buffer, or written without one. -/
  | outOfBounds (offset size : Nat)
  /-- No live object that can be used in the way that was asked for is at the address. -/
  | badPointer (address : UInt64)
  /-- A block was asked for, or handed back, with an impossible size or alignment. -/
  | badBlock
  /-- The addresses are used up. -/
  | outOfMemory
  /-- A body was resumed after it had returned. -/
  | resumedAfterReturn
  /-- A generator was to fail with a word that does not tell a failure. -/
  | reservedFailure (code : Int32)
  /-- A symbol was called as something that its code is not. -/
  | wrongCode (symbol : String)
  /-- Bodies called each other without end. -/
  | callDepth
  /-- A loop had more rounds than there were values. -/
  | endlessLoop
  /-- Code was asked for that was never defined or is not yet final. -/
  | noCode (name : String)
  /-- A call with the wrong arguments met no verifier. -/
  | unverifiedCall (callee : String)
  /-- A step named something that is not there. -/
  | malformed (what : String)
  deriving DecidableEq, Repr

end PullIter

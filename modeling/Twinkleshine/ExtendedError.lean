import Twinkleshine.Library.Outcome

/-!
# Errors and the actions they name

Reference: `include/extended_error.h`, `source/extended_error.c`.

An extended error packs the actions to take (`PARTIAL_EEF_*`, the low bits) and the fixed response to
send (`FR_*`) into one integer. `Eef` is the expression a raising site writes, `Eef.flags` the
integer the compiler makes of it. The enumerators after `FR_MAX_MEMORY = 1 << 8` go up by one, so
they reach into the bits of the actions.
-/

namespace Twinkleshine

open Library

/-- The message of a failed condition, as the raising site formats it. -/
abbrev Error := String

/-! ## Actions -/

/-- Send fixed message to the client. -/
def partialEefSend : ℕ := 1
/-- Start the shutdown process. -/
def partialEefShutdown : ℕ := 2
/-- Close the connection immediately. -/
def partialEefClose : ℕ := 4
/-- Log the incident. -/
def partialEefLog : ℕ := 8
/-- Total failure. -/
def partialEefDie : ℕ := 16

/-! ## Fixed responses -/

/-- Identifies the fixed message that should be generated fast. -/
inductive FixedResponse where
  | maxClients
  | maxMemory
  | maxUtilization
  | unknown
  | requestInvalid
  | maxAvailableRequestStream
  | maxRequestHeaderSize
  | maxRequestContentSize
  | maxIncompleteRequestTime
deriving DecidableEq, Repr

/-- The value of the enumerator: `FR_MAX_CLIENTS = 0 << 8`, `FR_MAX_MEMORY = 1 << 8`, and each later
one is its predecessor plus one. -/
def FixedResponse.code : FixedResponse → ℕ
  | maxClients => 0 <<< 8
  | maxMemory => 1 <<< 8
  | maxUtilization => 1 <<< 8 + 1
  | unknown => 1 <<< 8 + 2
  | requestInvalid => 1 <<< 8 + 3
  | maxAvailableRequestStream => 1 <<< 8 + 4
  | maxRequestHeaderSize => 1 <<< 8 + 5
  | maxRequestContentSize => 1 <<< 8 + 6
  | maxIncompleteRequestTime => 1 <<< 8 + 7

/-- The enumerator a `switch` over `enum FixedResponse` selects, `none` for its `default`. -/
def FixedResponse.ofCode (code : ℕ) : Option FixedResponse :=
  [maxClients, maxMemory, maxUtilization, unknown, requestInvalid, maxAvailableRequestStream,
    maxRequestHeaderSize, maxRequestContentSize, maxIncompleteRequestTime].find? (·.code == code)

/-! ## Packed errors -/

/-- The flags a raising site names. -/
inductive Eef where
  /-- `EEF_SHUTDOWN_LOG` -/
  | shutdownLog
  /-- `EEF_SEND_SHUTDOWN_LOG(FIXED_RESPONSE)` -/
  | sendShutdownLog (fixed : FixedResponse)
  /-- `EEF_CLOSE_LOG` -/
  | closeLog
  /-- `EEF_CLOSE_LOG_DIE` -/
  | closeLogDie
  /-- `EEF_SEND_CLOSE_LOG(FIXED_RESPONSE)` -/
  | sendCloseLog (fixed : FixedResponse)
  /-- `PARTIAL_EEF_DIE` on its own -/
  | die
deriving DecidableEq, Repr

/-- The actions the name of the flags spells out. -/
def Eef.actions : Eef → ℕ
  | shutdownLog => partialEefShutdown ||| partialEefLog
  | sendShutdownLog _ => partialEefSend ||| partialEefShutdown ||| partialEefLog
  | closeLog => partialEefClose ||| partialEefLog
  | closeLogDie => partialEefClose ||| partialEefLog ||| partialEefDie
  | sendCloseLog _ => partialEefSend ||| partialEefClose ||| partialEefLog
  | die => partialEefDie

/-- The fixed response the flags carry, if any. -/
def Eef.fixed : Eef → Option FixedResponse
  | sendShutdownLog fixed | sendCloseLog fixed => some fixed
  | _ => none

/-- The packed integer. -/
def Eef.flags (eef : Eef) : ℕ :=
  match eef.fixed with
  | some fixed => eef.actions ||| fixed.code
  | none => eef.actions

/-- `struct ExError`, with the flags as the raising site writes them. -/
structure ExError where
  error : Error
  eef : Eef
deriving DecidableEq, Repr

/-- `exerror.flags` -/
def ExError.flags (exerror : ExError) : ℕ := exerror.eef.flags

/-- `(exerror.flags & flag) != 0` -/
def ExError.has (exerror : ExError) (flag : ℕ) : Bool := exerror.flags &&& flag != 0

/-- `(enum FixedResponse)exerror.flags & (enum FixedResponse)~0xFF` -/
def ExError.fixedResponse (exerror : ExError) : ℕ := exerror.flags &&& 0xFFFFFF00

/-- `EXPRETF`: give a plain error its flags. -/
def extend (eef : Eef) (error : Error) : ExError := ⟨error, eef⟩

@[simp] theorem extend_eef (eef : Eef) (error : Error) : (extend eef error).eef = eef := rfl

/-- Only the flags ending in `DIE` have the bit of total failure: no fixed response reaches it. -/
theorem ExError.has_die_iff (exerror : ExError) :
    exerror.has partialEefDie = true ↔ exerror.eef = .closeLogDie ∨ exerror.eef = .die := by
  rcases exerror with ⟨error, _ | fixed | _ | _ | fixed | _⟩ <;> try cases fixed
  all_goals simp [has, flags, Eef.flags, Eef.fixed, Eef.actions, partialEefDie, partialEefSend,
    partialEefShutdown, partialEefClose, partialEefLog, FixedResponse.code]

end Twinkleshine

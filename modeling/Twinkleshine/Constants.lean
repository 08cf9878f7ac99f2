import Mathlib.Algebra.Group.Nat.Defs
import Mathlib.Tactic.Common

/-!
# Machine integers and `constants.h`

Sizes are natural numbers. Where `size_t` or `unsigned int` arithmetic can leave its range, the
operations below wrap as the machine does, and `sizeAdd_eq` and `sizeSub_eq` say when they do not.
-/

namespace Twinkleshine

/-! ## Unsigned arithmetic -/

/-- The number of values of `size_t`. -/
def sizeModulus : ℕ := 2 ^ 64

/-- The number of values of `unsigned int`. -/
def uintModulus : ℕ := 2 ^ 32

/-- Addition of `size_t`. -/
def sizeAdd (a b : ℕ) : ℕ := (a + b) % sizeModulus

/-- Subtraction of `size_t`. -/
def sizeSub (a b : ℕ) : ℕ := (a + (sizeModulus - b % sizeModulus)) % sizeModulus

theorem sizeAdd_eq {a b : ℕ} (h : a + b < 2 ^ 64) : sizeAdd a b = a + b :=
  Nat.mod_eq_of_lt h

theorem sizeSub_eq {a b : ℕ} (hb : b ≤ a) (ha : a < 2 ^ 64) : sizeSub a b = a - b := by
  simp only [sizeSub, sizeModulus]
  omega

/-- What holds of every byte is checked byte by byte. -/
theorem forall_byte (p : UInt8 → Prop) (h : ∀ i : Fin 256, p (UInt8.ofNat i)) (c : UInt8) : p c := by
  have hc := h ⟨c.toNat, c.toNat_lt⟩
  rwa [UInt8.ofNat_toNat] at hc

/-- None of the bytes of a text that can be run through has a property. -/
theorem forall_mem_of_all {p : UInt8 → Bool} {bytes : List UInt8}
    (h : bytes.all (fun c => !p c) = true) : ∀ c ∈ bytes, p c = false := by
  intro c hc
  have hnot := List.all_eq_true.mp h c hc
  rwa [Bool.not_eq_true'] at hnot

/-- `%u` of a value cast to `unsigned int`. -/
def uintText (n : ℕ) : String := toString (n % uintModulus)

/-- The bytes of a string literal. -/
def ascii (s : String) : List UInt8 := s.toList.map fun c => c.toNat.toUInt8

/-! ## Units -/

def megabyte : ℕ := 1048576
def gigabyte : ℕ := 1073741824
def second : ℕ := 1
def minute : ℕ := 60
def week : ℕ := 604800

/-! ## Throttling and security -/

/-- 2.1 -/
def maxClients : ℕ := 256
/-- 2.2 -/
def maxMemoryUsage : ℕ := 1 * gigabyte
/-- 3.1 -/
def maxRequestStreamSize : ℕ := 1 * megabyte
/-- 3.2 -/
def maxResponseStreamSize : ℕ := 1 * megabyte
/-- 4.2 -/
def maxAvailableRequestStream : ℕ := 2 * megabyte
/-- 4.3 -/
def maxRequestSize : ℕ := 1 * megabyte
/-- 4.4 -/
def maxIncompleteRequestTime : ℕ := 1 * minute
/-- 5.5 -/
def maxEmptyRequestStreamTime : ℕ := 10 * minute
/-- 5.6 -/
def maxFullResponseStreamTime : ℕ := 1 * minute
/-- 5.7 -/
def maxIncompleteResponseTime : ℕ := 1 * minute

/-- How many bytes are read regardless of what `ioctl()` says. -/
def minAvailableRequestStream : ℕ := 4096

/-! ## Logging -/

/-- 1 -/
def maxTotalLogNumber : ℕ := 16
/-- 2 -/
def maxTotalLogSize : ℕ := 16 * megabyte
/-- 3 -/
def maxLogAge : ℕ := 1 * week
/-- 4 -/
def maxLogSize : ℕ := 1 * megabyte

/-! ## Accepting sockets

A client remembers the index of the listening socket it came from; the index decides its protocol.
-/

def acceptingSockets : ℕ := 18

def acceptingSocketIsHttp (index : ℕ) : Bool := index < 2
def acceptingSocketIsHttps (index : ℕ) : Bool := 2 ≤ index && index < 4
def acceptingSocketIsGopher (index : ℕ) : Bool := 4 ≤ index && index < 6
def acceptingSocketIsFinger (index : ℕ) : Bool := 6 ≤ index && index < 8
def acceptingSocketIsGemini (index : ℕ) : Bool := 8 ≤ index && index < 10
def acceptingSocketIsSpartan (index : ℕ) : Bool := 10 ≤ index && index < 12
def acceptingSocketIsNex (index : ℕ) : Bool := 12 ≤ index && index < 14
def acceptingSocketIsText (index : ℕ) : Bool := 14 ≤ index && index < 16
def acceptingSocketIsGuppy (index : ℕ) : Bool := 16 ≤ index

def acceptingSocketIsConnection (index : ℕ) : Bool := index < 16
def acceptingSocketIsMessage (index : ℕ) : Bool := 16 ≤ index

/-- The protocols of the accepting sockets. -/
inductive Protocol where
  | http
  | https
  | gopher
  | finger
  | gemini
  | spartan
  | nex
  | text
  | guppy
deriving DecidableEq, Repr

/-- The chain of tests by which every dispatcher of the source selects a protocol. -/
def acceptingSocketProtocol (index : ℕ) : Protocol :=
  if acceptingSocketIsHttp index then .http
  else if acceptingSocketIsHttps index then .https
  else if acceptingSocketIsGopher index then .gopher
  else if acceptingSocketIsFinger index then .finger
  else if acceptingSocketIsGemini index then .gemini
  else if acceptingSocketIsSpartan index then .spartan
  else if acceptingSocketIsNex index then .nex
  else if acceptingSocketIsText index then .text
  else .guppy

/-! ## Message-based protocols -/

def chunkSendRepeatTime : ℕ := 1 * second
def chunkSendRepeats : ℕ := 4
def chunkSendSimultaneous : ℕ := 4
def chunkSize : ℕ := 512

end Twinkleshine

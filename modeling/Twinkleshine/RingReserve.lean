import Twinkleshine.RingFifo
import Mathlib.Data.Nat.Log
import Mathlib.Order.Bounds.Basic

/-!
# The capacity of a ring

Reference: `ring_reserve` in `source/ring.c`, its declaration in `include/ring.h`.

`ring_reserve` is declared to free excess memory, and has a block that moves the content of a ring that
shrinks. But the capacity it computes starts from the one the ring has and only ever doubles.
-/

namespace Twinkleshine

open Library

variable {ring : Ring} {c : ℕ}

/-! ## Powers of two -/

/-- The powers of two that are enough for a capacity; an empty ring keeps one byte. -/
def enoughPowers (c : ℕ) : Set ℕ := {n | (∃ k, n = 2 ^ k) ∧ max 1 c ≤ n}

theorem isLeast_enoughPowers (c : ℕ) : IsLeast (enoughPowers c) (2 ^ Nat.clog 2 c) := by
  have htwo : 1 < 2 := by omega
  refine ⟨⟨⟨_, rfl⟩, max_le (Nat.one_le_two_pow) (Nat.le_pow_clog htwo c)⟩, ?_⟩
  rintro _ ⟨⟨k, rfl⟩, hk⟩
  exact Nat.pow_le_pow_right (by omega) (Nat.clog_le_of_le_pow ((le_max_right 1 c).trans hk))

/-- The doubling loop stops at the capacity it started from, or at the least power of two that is
enough. -/
theorem growCapacity_eq (fuel : ℕ) {k : ℕ} (hc : c ≤ 2 ^ 63) (hk : k ≤ 63) (hfuel : 64 ≤ fuel + k) :
    growCapacity fuel c (2 ^ k) = some (2 ^ max k (Nat.clog 2 c)) := by
  have htwo : 1 < 2 := by omega
  induction fuel generalizing k with
  | zero => omega
  | succ fuel ih =>
    rw [growCapacity]
    by_cases hlt : c > 2 ^ k
    · have hclog : k < Nat.clog 2 c := (Nat.lt_clog_iff_pow_lt htwo).mpr hlt
      have hclogLe : Nat.clog 2 c ≤ 63 := Nat.clog_le_of_le_pow hc
      have hstep : 2 ^ k * 2 % sizeModulus = 2 ^ (k + 1) := by
        rw [← pow_succ]
        exact Nat.mod_eq_of_lt (Nat.pow_lt_pow_right (by omega) (by omega))
      rw [if_pos hlt, hstep, ih (by omega) (by omega), max_eq_right hclog.le, max_eq_right hclog]
    · rw [if_neg hlt, max_eq_left (Nat.clog_le_of_le_pow (Nat.not_lt.mp hlt))]

/-! ## Reserving -/

/-- Of the capacity, when the allocator grants the block: it is the one the ring has, or the least power
of two that is enough. -/
theorem ringReserve_capacity (h : ring.Valid) (hc : c ≤ 2 ^ 63) (junk : ℕ → UInt8) :
    (ringReserve ring c (some junk)).Ensures
      (fun _ r => ringContent r = ringContent ring ∧ r.capacity = max ring.capacity (2 ^ Nat.clog 2 c))
      fun _ _ => False := by
  obtain ⟨k, hk, hstart, hmax⟩ : ∃ k ≤ 63, (if ring.capacity = 0 then 1 else ring.capacity) = 2 ^ k ∧
      2 ^ max k (Nat.clog 2 c) = max ring.capacity (2 ^ Nat.clog 2 c) := by
    have hmono : Monotone fun n : ℕ => 2 ^ n := fun _ _ hle => Nat.pow_le_pow_right (by omega) hle
    obtain h0 | ⟨k, hk, h0⟩ := h.capacity_pow
    · refine ⟨0, by omega, by rw [if_pos h0]; rfl, ?_⟩
      rw [h0, max_eq_right (Nat.zero_le _), max_eq_right (Nat.zero_le _)]
    · have hpos := Nat.two_pow_pos k
      exact ⟨k, hk, by rw [if_neg (by omega), h0], by rw [h0]; exact hmono.map_max⟩
  have hspec := ringReserve_spec h hc (some junk)
  have hgrow := growCapacity_eq 66 hc hk (by omega)
  rw [hmax] at hgrow
  have hcapacity : ∀ u r, ringReserve ring c (some junk) = .ok u r →
      r.capacity = max ring.capacity (2 ^ Nat.clog 2 c) := by
    intro u r hr
    simp only [ringReserve, hstart, hgrow] at hr
    split_ifs at hr with heq hlt
    · rw [← (Outcome.ok.inj hr).2]
      exact heq.symm
    · omega
    · obtain ⟨_, _, -, hr⟩ := Outcome.andThen_eq_ok.mp hr
      dsimp only [countRealloc, Option.map_some] at hr
      rw [← (Outcome.ok.inj hr).2]
  cases hr : ringReserve ring c (some junk) with
  | ok u r =>
    obtain ⟨-, hcontent, -⟩ := hspec.of_eq_ok hr
    exact ⟨hcontent, hcapacity u r hr⟩
  | error e r => exact absurd (hspec.of_eq_error hr).2 (Option.some_ne_none junk)
  | hang =>
    rw [hr] at hspec
    exact hspec

/-- The ring is left with its content and the least capacity that is enough, which gives back what is in
excess. -/
def ReservesLeast (ring : Ring) (c : ℕ) (junk : ℕ → UInt8) : Prop :=
  (ringReserve ring c (some junk)).Ensures
    (fun _ r => ringContent r = ringContent ring ∧ IsLeast (enoughPowers c) r.capacity)
    fun _ _ => False

/-- A power of two is not in excess exactly when its half would not be enough. -/
theorem pow_le_iff_lt_double {k : ℕ} : 2 ^ k ≤ 2 ^ Nat.clog 2 c ↔ 2 ^ k < 2 * max 1 c := by
  have htwo : 1 < 2 := by omega
  rw [Nat.pow_le_pow_iff_right htwo]
  cases k with
  | zero =>
    have hone : 1 ≤ max 1 c := le_max_left 1 c
    exact iff_of_true (Nat.zero_le _) (by omega)
  | succ k =>
    have hpos := Nat.two_pow_pos k
    rw [Nat.succ_le_iff, Nat.lt_clog_iff_pow_lt htwo, pow_succ, Nat.mul_comm,
      Nat.mul_lt_mul_left (by omega)]
    constructor
    · intro hlt
      exact hlt.trans_le (le_max_right 1 c)
    · intro hlt
      rcases le_total 1 c with hle | hle
      · rwa [max_eq_right hle] at hlt
      · rw [max_eq_left hle] at hlt
        omega

/-- For every ring and every capacity that is asked for, the ring is left with the least capacity exactly
when it has less than twice what is asked for: memory is never given back. -/
theorem ringReserve_least_iff (h : ring.Valid) (hc : c ≤ 2 ^ 63) (junk : ℕ → UInt8) :
    ReservesLeast ring c junk ↔ ring.capacity < 2 * max 1 c := by
  have hleast := isLeast_enoughPowers c
  have hcapacity : ring.capacity ≤ 2 ^ Nat.clog 2 c ↔ ring.capacity < 2 * max 1 c := by
    obtain h0 | ⟨k, -, h0⟩ := h.capacity_pow
    · have hone : 1 ≤ max 1 c := le_max_left 1 c
      rw [h0]
      exact iff_of_true (Nat.zero_le _) (by omega)
    · rw [h0]
      exact pow_le_iff_lt_double
  rw [← hcapacity]
  have hspec := ringReserve_capacity h hc junk
  rw [ReservesLeast]
  cases hr : ringReserve ring c (some junk) with
  | ok u r =>
    obtain ⟨hcontent, hmax⟩ := hspec.of_eq_ok hr
    constructor
    · rintro ⟨-, hle⟩
      have heq := hle.unique hleast
      omega
    · intro hle
      refine ⟨hcontent, ?_⟩
      rw [hmax, max_eq_right hle]
      exact hleast
  | error e r => exact (hspec.of_eq_error hr).elim
  | hang =>
    rw [hr] at hspec
    exact hspec.elim

/-- A ring that is as large as it has to be. -/
theorem ringReserve_least_grown : ReservesLeast ⟨[1, 2], 2, 2, 0⟩ 3 (fun _ => 0) := by
  have hvalid : (⟨[1, 2], 2, 2, 0⟩ : Ring).Valid := ⟨⟨rfl, by decide, by decide⟩, .inr ⟨1, by decide, rfl⟩⟩
  exact (ringReserve_least_iff hvalid (by decide) _).mpr (by decide)

/-- A ring that once was larger keeps its memory when a single byte is asked for. -/
theorem ringReserve_excess : ¬ ∀ (calls : List RingCall) (log : List (RingCall × RingAnswer))
    (ring : Ring), (∀ call ∈ calls, call.InBounds) → ringRun Ring.zero calls = some (log, ring) →
      ∀ c, ring.size ≤ c → c ≤ 2 ^ 63 → ∀ junk, ReservesLeast ring c junk := by
  intro hclaim
  have hrun : (ringRun Ring.zero [.reserve 8 (some fun _ => 0)]).map Prod.snd
      = some ⟨List.replicate 8 0, 0, 8, 0⟩ := by decide +kernel
  obtain ⟨⟨log, ring⟩, hlog, hring⟩ := Option.map_eq_some_iff.mp hrun
  obtain rfl : ring = ⟨List.replicate 8 0, 0, 8, 0⟩ := hring
  have hbounds : ∀ call ∈ [RingCall.reserve 8 (some fun _ => 0)], call.InBounds := by
    intro call hcall
    rw [List.mem_singleton.mp hcall]
    exact show 8 ≤ 2 ^ 63 by decide
  have hleast := hclaim _ log _ hbounds hlog 1 (by decide) (by decide) fun _ => 0
  have hreserve : ringReserve ⟨List.replicate 8 0, 0, 8, 0⟩ 1 (some fun _ => 0)
      = .ok () ⟨List.replicate 8 0, 0, 8, 0⟩ := by decide +kernel
  rw [ReservesLeast, hreserve] at hleast
  have hle : 8 ≤ 1 := hleast.2.2 ⟨⟨0, rfl⟩, by decide⟩
  omega

end Twinkleshine

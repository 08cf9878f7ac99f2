import Twinkleshine.Constants
import Twinkleshine.Library.Sampling
import Mathlib.Data.Fintype.Fin
import Mathlib.Data.Int.CardIntervalMod

/-!
# Random numbers

Reference: `source/random.c`.

`random_rand` puts values of `rand()` together to a buffer and takes the buffer modulo the number of
outcomes, unless it lies among the last few buffers, which would make some outcomes likelier. The values of
`rand()` are a list here, and `none` stands for a computation that needs more of them.
-/

namespace Twinkleshine

open Library Finset

/-! ## Sizes -/

/-- The loop that counts the bits of a value; the count is an `unsigned char`. -/
def bitsLoop : ℕ → ℕ → ℕ → ℕ
  | 0, _, bits => bits
  | fuel + 1, maxBuffer, bits =>
    if maxBuffer > 0 then bitsLoop fuel (maxBuffer / 2) ((bits + 1) % 256) else bits

/-- The size of a value of `size_t` in bits. -/
def sizeInBits (value : ℕ) : ℕ := bitsLoop 64 value 0

/-- `buffer = (buffer << rand_max_bits) | value` -/
def appendBits (randMaxBits buffer value : ℕ) : ℕ := (buffer <<< randMaxBits) % sizeModulus ||| value

/-! ## Buffers -/

/-- The loop that gets the maximum possible buffer value, `none` when it never ends. -/
def maxBufferLoop (randMax randMaxBits maxBits : ℕ) : ℕ → ℕ → ℕ → Option ℕ
  | 0, _, _ => none
  | fuel + 1, randBits, maxBuffer =>
    if randBits < maxBits then
      maxBufferLoop randMax randMaxBits maxBits fuel ((randBits + maxBits) % 256)
        (appendBits randMaxBits maxBuffer randMax)
    else some maxBuffer

/-- The loop that fills a buffer, which is returned with the values that are left. -/
def bufferLoop (randMaxBits maxBits : ℕ) : ℕ → ℕ → ℕ → List ℕ → Option (ℕ × List ℕ)
  | 0, _, _, _ => none
  | fuel + 1, randBits, buffer, rands =>
    if randBits < maxBits then
      match rands with
      | [] => none
      | rand :: rands =>
        bufferLoop randMaxBits maxBits fuel ((randBits + maxBits) % 256)
          (appendBits randMaxBits buffer rand) rands
    else some (buffer, rands)

/-- How many buffers are rejected. -/
def rejectNumber (maxBuffer outcomeNumber : ℕ) : ℕ :=
  if maxBuffer % outcomeNumber + 1 = outcomeNumber then 0 else maxBuffer % outcomeNumber + 1

/-- The loop that samples until a buffer is accepted. -/
def sampleLoop (randMaxBits maxBits maxBufferAccept outcomeNumber : ℕ) : ℕ → List ℕ → Option ℕ
  | 0, _ => none
  | fuel + 1, rands =>
    match bufferLoop randMaxBits maxBits 256 0 0 rands with
    | none => none
    | some (buffer, rands) =>
      if buffer ≤ maxBufferAccept then some (buffer % outcomeNumber)
      else sampleLoop randMaxBits maxBits maxBufferAccept outcomeNumber fuel rands

/-- `random_rand`, where `RAND_MAX` is `randMax` and `rand()` returns these values. -/
def randomRand (randMax outcomeNumber : ℕ) (rands : List ℕ) : Option ℕ :=
  if outcomeNumber = 0 then some 0
  else
    let randMaxBits := sizeInBits randMax
    let maxBits := sizeInBits (outcomeNumber - 1)
    match maxBufferLoop randMax randMaxBits maxBits 256 0 0 with
    | none => none
    | some maxBuffer =>
      let maxBufferAccept := sizeSub maxBuffer (rejectNumber maxBuffer outcomeNumber)
      sampleLoop randMaxBits maxBits maxBufferAccept outcomeNumber (rands.length + 1) rands

/-! ## One value of `rand()` fills a buffer -/

theorem bitsLoop_bounds {fuel bits : ℕ} (hbits : bits + fuel < 256) (maxBuffer : ℕ) :
    bits ≤ bitsLoop fuel maxBuffer bits ∧ bitsLoop fuel maxBuffer bits ≤ bits + fuel := by
  induction fuel generalizing maxBuffer bits with
  | zero => exact ⟨Nat.le_refl bits, Nat.le_refl bits⟩
  | succ fuel ih =>
    rw [bitsLoop, Nat.mod_eq_of_lt (show bits + 1 < 256 by omega)]
    split_ifs with hpos
    · obtain ⟨hlow, hhigh⟩ := ih (show bits + 1 + fuel < 256 by omega) (maxBuffer / 2)
      omega
    · omega

theorem sizeInBits_pos {value : ℕ} (hvalue : 0 < value) :
    0 < sizeInBits value ∧ sizeInBits value ≤ 64 := by
  have hstep : sizeInBits value = bitsLoop 63 (value / 2) 1 := if_pos hvalue
  obtain ⟨hlow, hhigh⟩ := bitsLoop_bounds (show 1 + 63 < 256 by decide) (value / 2)
  rw [hstep]
  exact ⟨hlow, hhigh⟩

/-- A buffer begins with nothing, so the first value is all there is in it. -/
theorem appendBits_zero (randMaxBits value : ℕ) : appendBits randMaxBits 0 value = value := by
  rw [appendBits, Nat.zero_shiftLeft, Nat.zero_mod, Nat.zero_or]

variable {randMax randMaxBits maxBits : ℕ}

/-- The bits that are counted after one value are those that are needed, so the loop stops. -/
theorem maxBufferLoop_eq (hmax : 0 < maxBits) (hle : maxBits ≤ 64) :
    maxBufferLoop randMax randMaxBits maxBits 256 0 0 = some randMax := by
  rw [maxBufferLoop, if_pos hmax, maxBufferLoop, Nat.zero_add, Nat.mod_eq_of_lt (by omega),
    if_neg (Nat.lt_irrefl maxBits), appendBits_zero]

theorem bufferLoop_cons (hmax : 0 < maxBits) (hle : maxBits ≤ 64) (rand : ℕ) (rands : List ℕ) :
    bufferLoop randMaxBits maxBits 256 0 0 (rand :: rands) = some (rand, rands) := by
  have hfirst : bufferLoop randMaxBits maxBits 256 0 0 (rand :: rands)
      = bufferLoop randMaxBits maxBits 255 ((0 + maxBits) % 256) (appendBits randMaxBits 0 rand) rands :=
    if_pos hmax
  rw [hfirst, Nat.zero_add, Nat.mod_eq_of_lt (by omega), appendBits_zero]
  exact if_neg (Nat.lt_irrefl maxBits)

theorem bufferLoop_nil (hmax : 0 < maxBits) : bufferLoop randMaxBits maxBits 256 0 0 [] = none := by
  rw [bufferLoop, if_pos hmax]

/-! ## What is accepted -/

/-- What one value of `rand()` stands for, `none` if it is rejected. -/
def acceptRand (randMax outcomeNumber rand : ℕ) : Option ℕ :=
  if rand ≤ randMax - (randMax + 1) % outcomeNumber then some (rand % outcomeNumber) else none

/-- The reject count is the remainder of the number of values, without computing that number. -/
theorem rejectNumber_eq {outcomeNumber : ℕ} (hpos : 0 < outcomeNumber) (maxBuffer : ℕ) :
    rejectNumber maxBuffer outcomeNumber = (maxBuffer + 1) % outcomeNumber := by
  have hlt := Nat.mod_lt maxBuffer hpos
  rw [rejectNumber, ← Nat.mod_add_mod]
  split_ifs with hmultiple
  · rw [hmultiple, Nat.mod_self]
  · exact (Nat.mod_eq_of_lt (by omega)).symm

/-- The sampling is rejection sampling, value by value. -/
theorem sampleLoop_eq (hmax : 0 < maxBits) (hle : maxBits ≤ 64) (outcomeNumber : ℕ) {fuel : ℕ}
    {rands : List ℕ} (hfuel : rands.length < fuel) :
    sampleLoop randMaxBits maxBits (randMax - (randMax + 1) % outcomeNumber) outcomeNumber fuel rands
      = rands.findSome? (acceptRand randMax outcomeNumber) := by
  induction rands generalizing fuel with
  | nil =>
    obtain ⟨fuel, rfl⟩ := Nat.exists_eq_succ_of_ne_zero (Nat.ne_of_gt hfuel)
    rw [sampleLoop, bufferLoop_nil hmax]
    rfl
  | cons rand rands ih =>
    obtain ⟨fuel, rfl⟩ := Nat.exists_eq_succ_of_ne_zero (Nat.ne_zero_of_lt hfuel)
    rw [sampleLoop, bufferLoop_cons hmax hle, List.findSome?_cons, acceptRand]
    by_cases haccept : rand ≤ randMax - (randMax + 1) % outcomeNumber
    · simp only [if_pos haccept]
    · simp only [if_neg haccept]
      exact ih (Nat.lt_of_succ_lt_succ hfuel)

/-- With more than one outcome, `random_rand` returns what the first accepted value stands for. -/
theorem randomRand_eq {outcomeNumber : ℕ} (htwo : 2 ≤ outcomeNumber) (hsize : randMax < sizeModulus)
    (rands : List ℕ) (hle : outcomeNumber ≤ randMax + 1) :
    randomRand randMax outcomeNumber rands = rands.findSome? (acceptRand randMax outcomeNumber) := by
  obtain ⟨hbits, hbits64⟩ := sizeInBits_pos (show 0 < outcomeNumber - 1 by omega)
  have hreject := Nat.mod_lt (randMax + 1) (show 0 < outcomeNumber by omega)
  simp only [randomRand, if_neg (show ¬ outcomeNumber = 0 by omega), maxBufferLoop_eq hbits hbits64]
  rw [rejectNumber_eq (by omega), sizeSub_eq (by omega) hsize, sampleLoop_eq hbits hbits64 _ (by omega)]

/-- A single outcome needs no random value. -/
theorem randomRand_one (randMax : ℕ) (rands : List ℕ) : randomRand randMax 1 rands = some 0 := rfl

/-- Equally many values stand for each outcome, because the accepted ones are a multiple of their
number. -/
theorem card_acceptRand {outcomeNumber k : ℕ} (hle : outcomeNumber ≤ randMax + 1)
    (hk : k < outcomeNumber) :
    card {rand ∈ range (randMax + 1) | acceptRand randMax outcomeNumber rand = some k}
      = (randMax + 1) / outcomeNumber := by
  have hpos : 0 < outcomeNumber := Nat.zero_lt_of_lt hk
  have hdiv := Nat.div_add_mod (randMax + 1) outcomeNumber
  have hreject := Nat.mod_lt (randMax + 1) hpos
  have haccepted : {rand ∈ range (randMax + 1) | acceptRand randMax outcomeNumber rand = some k}
      = {rand ∈ range (outcomeNumber * ((randMax + 1) / outcomeNumber)) |
          rand ≡ k [MOD outcomeNumber]} := by
    ext rand
    rw [mem_filter, mem_filter, mem_range, mem_range, acceptRand, Nat.ModEq, Nat.mod_eq_of_lt hk]
    by_cases haccept : rand ≤ randMax - (randMax + 1) % outcomeNumber
    · rw [if_pos haccept, Option.some_inj]
      exact and_congr_left fun _ => ⟨fun _ => by omega, fun _ => by omega⟩
    · rw [if_neg haccept]
      exact ⟨fun h => absurd h.2 (by simp), fun h => absurd h.1 (by omega)⟩
  rw [haccepted, ← Nat.count_eq_card_filter_range, Nat.count_modEq_card _ hpos, Nat.mul_mod_right,
    if_neg (Nat.not_lt_zero _), Nat.add_zero, Nat.mul_div_cancel_left _ hpos]

/-! ## Uniform values give uniform outcomes -/

/-- `random_rand` accepts some values of `rand()`, returns one of the outcomes, and returns each of them for
equally many accepted values, and for equally many sequences of values of any length. -/
theorem randomRand_uniform {randMax bits outcomeNumber : ℕ} (hpower : randMax + 1 = 2 ^ bits)
    (hbits : bits < 64) (hpos : 1 ≤ outcomeNumber) (hle : outcomeNumber ≤ randMax + 1) :
    (∃ rand ≤ randMax, (randomRand randMax outcomeNumber [rand]).isSome = true) ∧
    (∀ rands k, randomRand randMax outcomeNumber rands = some k → k < outcomeNumber) ∧
    (∃ count, 0 < count ∧ ∀ k < outcomeNumber,
      card {rand ∈ range (randMax + 1) | randomRand randMax outcomeNumber [rand] = some k} = count) ∧
    ∀ m, ∀ k < outcomeNumber, ∀ k' < outcomeNumber,
      card {rands : Fin m → Fin (randMax + 1) |
          randomRand randMax outcomeNumber (List.ofFn fun i => (rands i : ℕ)) = some k}
        = card {rands : Fin m → Fin (randMax + 1) |
            randomRand randMax outcomeNumber (List.ofFn fun i => (rands i : ℕ)) = some k'} := by
  have hsize : randMax < sizeModulus := by
    have hlt := Nat.pow_lt_pow_right (show 1 < 2 by decide) hbits
    rw [sizeModulus]
    omega
  rcases Nat.eq_or_lt_of_le hpos with rfl | htwo
  · refine ⟨⟨0, Nat.zero_le _, rfl⟩, ?_, ⟨randMax + 1, Nat.succ_pos _, ?_⟩, ?_⟩
    · intro rands k hk
      rw [randomRand_one] at hk
      exact Nat.lt_one_iff.mpr (Option.some.inj hk).symm
    · intro k hk
      obtain rfl := Nat.lt_one_iff.mp hk
      simp only [randomRand_one, filter_true, card_range]
    · intro m k hk k' hk'
      rw [Nat.lt_one_iff.mp hk, Nat.lt_one_iff.mp hk']
  · have hpos' : 0 < outcomeNumber := by omega
    have hone : ∀ rand, randomRand randMax outcomeNumber [rand] = acceptRand randMax outcomeNumber rand := by
      intro rand
      rw [randomRand_eq htwo hsize _ hle, List.findSome?_cons]
      cases acceptRand randMax outcomeNumber rand <;> rfl
    refine ⟨⟨0, Nat.zero_le _, ?_⟩, ?_, ⟨(randMax + 1) / outcomeNumber, Nat.div_pos hle hpos', ?_⟩, ?_⟩
    · rw [hone, acceptRand, if_pos (Nat.zero_le _)]
      rfl
    · intro rands k hk
      rw [randomRand_eq htwo hsize _ hle] at hk
      obtain ⟨rand, -, hrand⟩ := List.exists_of_findSome?_eq_some hk
      obtain ⟨-, hmod⟩ := Option.ite_none_right_eq_some.mp hrand
      rw [← Option.some.inj hmod]
      exact Nat.mod_lt _ hpos'
    · intro k hk
      simp only [hone]
      exact card_acceptRand hle hk
    · intro m k hk k' hk'
      -- the values as draws of a finite type
      have hfin : ∀ k < outcomeNumber,
          card {rand : Fin (randMax + 1) | acceptRand randMax outcomeNumber rand = some k}
            = (randMax + 1) / outcomeNumber := by
        intro k hk
        rw [← card_acceptRand hle hk, ← Nat.Iio_eq_range, ← Fin.map_valEmbedding_univ, filter_map, card_map]
        rfl
      have hlist : ∀ rands : Fin m → Fin (randMax + 1),
          randomRand randMax outcomeNumber (List.ofFn fun i => (rands i : ℕ))
            = (List.ofFn rands).findSome? fun rand : Fin (randMax + 1) =>
              acceptRand randMax outcomeNumber rand := by
        intro rands
        rw [randomRand_eq htwo hsize _ hle]
        show (List.ofFn (Fin.val ∘ rands)).findSome? _ = _
        rw [← List.map_ofFn, List.findSome?_map]
        rfl
      simp only [hlist]
      exact card_findSome_eq ((hfin k hk).trans (hfin k' hk').symm) m

/-- Six outcomes of values below 32768: two values are rejected. -/
theorem randomRand_uniform_six :
    (∃ rand ≤ 32767, (randomRand 32767 6 [rand]).isSome = true) ∧
      (∀ rands k, randomRand 32767 6 rands = some k → k < 6) ∧
      ∃ count, 0 < count ∧ ∀ k < 6,
        card {rand ∈ range 32768 | randomRand 32767 6 [rand] = some k} = count := by
  obtain ⟨haccepts, hbelow, hcount, -⟩ :=
    randomRand_uniform (show 32767 + 1 = 2 ^ 15 from rfl) (by decide) (show 1 ≤ 6 by decide) (by decide)
  exact ⟨haccepts, hbelow, hcount⟩

end Twinkleshine

import Twinkleshine.Server.Termination

/-!
# How long the server may wait

While the clients are visited, `remaining` comes down to the next deadline. The deadlines of a client are
armed by what it has pending when its visit ends, and the visits of others cannot arm one of them later,
except the deadline of an unfinished request: `check_timeouts` looks at the response stream for it, into
which a visit of another client may move a short response.
-/

namespace Twinkleshine

open Library

variable {i j : ℕ} {now remaining : ℤ} {s t : Server} {v : Visit}

/-! ## The end of a visit -/

/-- All deadlines a client can have, armed or not. -/
def Client.deadlines (client : Client) : List ℤ :=
  [client.lastRequestComplete + maxIncompleteRequestTime,
    client.lastRequestStreamNotEmpty + maxEmptyRequestStreamTime,
    client.lastResponseStreamNotFull + maxFullResponseStreamTime,
    client.lastResponseComplete + maxIncompleteResponseTime]

theorem mem_deadlines_of_mem_clientTimeouts {timeout : ℤ × Eef} (h : timeout ∈ clientTimeouts s i) :
    timeout.1 ∈ (s.client i).deadlines := by
  simp only [clientTimeouts, List.mem_append] at h
  rcases h with ((h | h) | h) | h
  all_goals
    split_ifs at h
    · rw [List.mem_singleton.mp h]
      simp [Client.deadlines]
    · exact absurd h List.not_mem_nil

/-- `check_timeout`, called for a list, lowers `remaining` to the nearest of its timeouts. -/
theorem checkAll_some (now : ℤ) (timeouts : List (ℤ × Eef)) (remaining : ℤ) :
    ∃ nearest, checkAll now timeouts (some remaining) = .ok (some nearest) ∧ nearest ≤ remaining ∧
      (∀ timeout ∈ timeouts, nearest ≤ toInt (timeout.1 - now)) ∧
      (nearest = remaining ∨ ∃ timeout ∈ timeouts, nearest = toInt (timeout.1 - now)) := by
  induction timeouts generalizing remaining with
  | nil => exact ⟨remaining, rfl, le_refl _, fun _ h => absurd h List.not_mem_nil, .inl rfl⟩
  | cons timeout timeouts ih =>
    obtain ⟨time, eef⟩ := timeout
    rw [checkAll, checkTimeout]
    obtain ⟨nearest, hcheck, hle, hall, hexact⟩ := ih (if toInt (time - now) < remaining then
      toInt (time - now) else remaining)
    refine ⟨nearest, hcheck, hle.trans (by split_ifs <;> omega), fun timeout htimeout => ?_, ?_⟩
    · rcases List.mem_cons.mp htimeout with rfl | htimeout
      · show nearest ≤ toInt (time - now)
        exact hle.trans (by split_ifs <;> omega)
      · exact hall timeout htimeout
    · rcases hexact with hsame | ⟨timeout, htimeout, heq⟩
      · by_cases hlt : toInt (time - now) < remaining
        · rw [if_pos hlt] at hsame
          exact .inr ⟨(time, eef), List.mem_cons_self, hsame⟩
        · rw [if_neg hlt] at hsame
          exact .inl hsame
      · exact .inr ⟨timeout, List.mem_cons_of_mem _ htimeout, heq⟩

/-- What a visit of client `i` that began with this `remaining` does to it. -/
structure Lowered (i : ℕ) (now remaining remaining' : ℤ) (t : Server) : Prop where
  le : remaining' ≤ remaining
  early : (t.client i).dead = false → ∀ timeout ∈ clientTimeouts t i, remaining' ≤ toInt (timeout.1 - now)
  exact : remaining' = remaining ∨ remaining' = chunkSendRepeatTime ∨
    ∃ deadline ∈ (t.client i).deadlines, remaining' = toInt (deadline - now)

theorem prepareToWait_lowered (i : ℕ) (now remaining : ℤ) (s : Server) :
    Lowered i now remaining (prepareToWait i now remaining s).2 (prepareToWait i now remaining s).1 := by
  have hchecked : ∀ (u : Server) (before : ℤ), before ≤ remaining →
      (before = remaining ∨ before = chunkSendRepeatTime) →
      ∃ nearest, checkTimeouts u i now (some before) = .ok (some nearest) ∧
        Lowered i now remaining nearest u := by
    intro u before hle hbefore
    obtain ⟨nearest, hcheck, hnearest, hall, hexact⟩ := checkAll_some now (clientTimeouts u i) before
    refine ⟨nearest, hcheck, hnearest.trans hle, fun _ => hall, ?_⟩
    rcases hexact with hsame | ⟨timeout, htimeout, heq⟩
    · exact hbefore.imp hsame.trans fun h => .inl (hsame.trans h)
    · exact .inr (.inr ⟨_, mem_deadlines_of_mem_clientTimeouts htimeout, heq⟩)
  unfold prepareToWait
  by_cases hconnection : acceptingSocketIsConnection (s.client i).acceptingSocket = true
  · simp only [if_pos hconnection]
    obtain ⟨nearest, hcheck, hlowered⟩ := hchecked (s.setPoll (pollIndex s i)
      { s.poll (pollIndex s i) with events := waitEvents i s }) remaining (le_refl _) (.inl rfl)
    rw [hcheck]
    exact hlowered
  · simp only [if_neg hconnection]
    obtain ⟨nearest, hcheck, hlowered⟩ := hchecked s (if getMakesSenseToSend s i = true ∧
      remaining > chunkSendRepeatTime then chunkSendRepeatTime else remaining) (by
        split_ifs with hsend
        · exact hsend.2.le
        · exact le_refl _) (by
        split_ifs
        · exact .inr rfl
        · exact .inl rfl)
    rw [hcheck]
    exact hlowered

/-- A visit ends with `remaining` no later than any deadline of the client, or with the end of the client. -/
theorem serverProcessClientLoop_lowered (now remaining : ℤ) (answers : VisitAnswers) (fuel k : ℕ)
    (hi : i < v.server.clients.elements.length) :
    (serverProcessClientLoop i now remaining answers fuel k v).Yields fun remaining' t =>
      Lowered i now remaining remaining' t := by
  induction fuel generalizing k v with
  | zero => exact trivial
  | succ fuel ih =>
    rw [serverProcessClientLoop]
    refine Outcome.Meets.handle ((serverProcessClientRound_visited (v := { v with doneSomething := false }) hi
      now (answers.rounds k)).of_imp fun _ => trivial) (fun _ w hw => ?_) fun e w hw => ?_
    · have hlt : i < w.server.clients.elements.length := hw.length ▸ hi
      split_ifs
      · exact ih (k + 1) hlt
      · exact prepareToWait_lowered i now remaining w.server
    · have hlt : i < w.server.clients.elements.length := hw.length ▸ hi
      refine (failureActions_finalized hlt answers.taken e).andThen fun _ t ht => ?_
      obtain ⟨client, hclient⟩ := ht
      refine ⟨le_refl _, fun hlive => ?_, .inl rfl⟩
      rw [hclient] at hlive
      exact absurd hlive Bool.true_eq_false.mp

/-! ## The visits of others -/

/-- The deadlines of a client, but for the one of an unfinished request, are not armed while others are
visited. -/
theorem mem_clientTimeouts_of_le {stream : Ring}
    (hclient : t.client j = { s.client j with responseStream := stream })
    (hle : clientResponseStreamSize t j ≤ clientResponseStreamSize s j) {timeout : ℤ × Eef}
    (hother : timeout.2 ≠ .sendShutdownLog .maxIncompleteRequestTime)
    (h : timeout ∈ clientTimeouts t j) : timeout ∈ clientTimeouts s j := by
  simp only [clientTimeouts, List.mem_append] at h ⊢
  rw [hclient] at h
  rcases h with ((h | h) | h) | h
  · split_ifs at h
    · rw [List.mem_singleton.mp h] at hother
      exact absurd rfl hother
    · exact absurd h List.not_mem_nil
  · exact .inl (.inl (.inr h))
  · refine .inl (.inr ?_)
    split_ifs at h with hfull
    · rw [if_pos (hfull.trans hle)]
      exact h
    · exact absurd h List.not_mem_nil
  · refine .inr ?_
    split_ifs at h with hpending
    · rw [if_pos (Nat.lt_of_lt_of_le hpending hle)]
      exact h
    · exact absurd h List.not_mem_nil

/-- A connection that is not encrypted, nor finalized, nor waits for its visit. -/
structure Server.Served (s : Server) (rest : List ℕ) (j : ℕ) : Prop where
  lt : j < s.clients.elements.length
  plaintext : (s.client j).encrypted = false
  connection : acceptingSocketIsConnection (s.client j).acceptingSocket = true
  live : (s.client j).dead = false
  visited : j ∉ rest.map s.visited

/-- How long the server may wait, when the pass is so far. -/
structure WakesInTime (now remaining : ℤ) (rest : List ℕ) (s : Server) : Prop where
  nodup : (rest.map s.visited).Nodup
  early : ∀ j, s.Served rest j → ∀ timeout ∈ clientTimeouts s j,
    timeout.2 ≠ .sendShutdownLog .maxIncompleteRequestTime → remaining ≤ toInt (timeout.1 - now)
  exact : remaining = intMax ∨ remaining = chunkSendRepeatTime ∨
    ∃ j < s.clients.elements.length, j ∉ rest.map s.visited ∧
      ∃ deadline ∈ (s.client j).deadlines, remaining = toInt (deadline - now)

/-- A visit keeps the server waking in time. -/
theorem WakesInTime.visit {remaining' : ℤ} {place : ℕ} {rest : List ℕ} {answers : VisitAnswers} {fuel : ℕ}
    (h : WakesInTime now remaining (place :: rest) s) (hi : s.visited place < s.clients.elements.length)
    (hshort : s.ShortSound) (hworkable : s.All Client.WorkableIfPlain)
    (hreturns : serverProcessClient (s.visited place) now remaining answers fuel s = .ok remaining' t) :
    WakesInTime now remaining' rest t := by
  have hvisited := (serverProcessClient_visited hi now remaining answers fuel).of_eq_ok hreturns
  have hattended := (serverProcessClient_attended now remaining answers fuel).of_eq_ok hreturns
  have hlowered := (serverProcessClientLoop_lowered (v := startVisit (s.visited place) s) now remaining answers
    fuel 0 hi).of_eq_ok hreturns
  obtain ⟨hnodup, hearly, hexact⟩ := h
  have hrest : rest.map t.visited = rest.map s.visited := List.map_congr_left fun place _ =>
    hvisited.visited_eq place
  rw [List.map_cons, List.nodup_cons] at hnodup
  refine ⟨hrest ▸ hnodup.2, fun j hj timeout htimeout hother => ?_, ?_⟩
  · by_cases hji : j = s.visited place
    · subst hji
      exact hlowered.early hj.live timeout htimeout
    · obtain ⟨stream, hstream⟩ := hvisited.others j hji
      have hlt : j < s.clients.elements.length := hvisited.length ▸ hj.lt
      have hplain := hj.plaintext
      have hconnection := hj.connection
      have hlive := hj.live
      rw [hstream] at hplain hconnection hlive
      have hvalid := (hworkable j hlt hplain hconnection hlive).plain.stream
      have hle := ((hattended.spared hshort.linked j hlt hji hvalid).clientResponseStreamSize_le hvalid
        hshort.readable.readable (hattended.readable hshort.readable).readable).1
      have hbefore : s.Served (place :: rest) j := by
        refine ⟨hlt, hplain, hconnection, hlive, ?_⟩
        rw [List.map_cons, List.mem_cons, not_or, ← hrest]
        exact ⟨hji, hj.visited⟩
      exact hlowered.le.trans (hearly j hbefore timeout
        (mem_clientTimeouts_of_le hstream hle hother htimeout) hother)
  · rw [hrest]
    -- the time that is waited is the old one, or was set by this visit
    rcases hlowered.exact with hsame | hrepeat | hdeadline
    · rcases hexact with hnone | hrepeat | ⟨j, hj, hplace, deadline, hdeadline, heq⟩
      · exact .inl (hsame.trans hnone)
      · exact .inr (.inl (hsame.trans hrepeat))
      · rw [List.map_cons, List.mem_cons, not_or] at hplace
        obtain ⟨stream, hstream⟩ := hvisited.others j hplace.1
        refine .inr (.inr ⟨j, hvisited.length.symm ▸ hj, hplace.2, deadline, ?_, hsame.trans heq⟩)
        rw [hstream]
        exact hdeadline
    · exact .inr (.inl hrepeat)
    · exact .inr (.inr ⟨_, hvisited.length.symm ▸ hi, hnodup.1, hdeadline⟩)

/-- Nobody was visited yet. -/
theorem WakesInTime.shuffle (choices : ℕ → ℕ) (now : ℤ) (s : Server) :
    WakesInTime now intMax (List.range s.clients.elements.length) (clientsShuffle choices s) := by
  have hperm := shuffledIndices_perm choices s.clients.elements.length
  refine ⟨?_, fun j hj => absurd ?_ hj.visited, .inl rfl⟩
  · rw [map_visited_range]
    exact hperm.nodup_iff.mpr List.nodup_range
  · rw [map_visited_range, hperm.mem_iff, List.mem_range, ← length_clientsShuffle choices]
    exact hj.lt

/-! ## Runs -/

/-- While the clients are visited, the server wakes in time. -/
def Waking : Phase × Server → Prop
  | (.visiting now remaining rest, s) => WakesInTime now remaining rest s
  | _ => True

/-- In every run, when so many clients were visited, `remaining` is no later than any deadline that is armed
for one of them, but for the one of an unfinished request; and it is a deadline, if it is not the time to
send a chunk again. -/
theorem serverRun_wakes {polls : Buffer Poll} (hpolls : polls.elements.length = acceptingSockets)
    {inputs : List ServerInput} {rest : List ℕ}
    (hrun : Runs ServerStep (startState polls) inputs (.visiting now remaining rest, s)) :
    (∀ j, s.Served rest j → ∀ timeout ∈ clientTimeouts s j,
      timeout.2 ≠ .sendShutdownLog .maxIncompleteRequestTime → remaining ≤ toInt (timeout.1 - now)) ∧
    (remaining = intMax ∨ remaining = chunkSendRepeatTime ∨
      ∃ j < s.clients.elements.length, j ∉ rest.map s.visited ∧
        ∃ deadline ∈ (s.client j).deadlines, remaining = toInt (deadline - now)) := by
  have hwaking : Waking (.visiting now remaining rest, s) := by
    refine hrun.invariant_of_runs trivial fun inputs' state input state' hbefore hs hstep => ?_
    obtain ⟨htabled, hshort, hworkable⟩ := serverRun_workable hpolls hbefore
    cases hstep with
    | poll => exact trivial
    | accept => exact trivial
    | shuffle s now load choices => exact .shuffle choices now s
    | visit returns => exact hs.visit (htabled.places _ List.mem_cons_self) hshort hworkable returns
    | remove => exact trivial
  exact ⟨hwaking.early, hwaking.exact⟩

/-- After the visit of a reader that did not take everything. -/
theorem serverRun_wakes_reader : ∃ inputs remaining t,
    Runs ServerStep (startState listening) inputs (.visiting 0 remaining [], t) ∧
    (∀ j, t.Served [] j → ∀ timeout ∈ clientTimeouts t j,
      timeout.2 ≠ .sendShutdownLog .maxIncompleteRequestTime → remaining ≤ toInt (timeout.1 - 0)) ∧
    (remaining = intMax ∨ remaining = chunkSendRepeatTime ∨
      ∃ j < t.clients.elements.length, j ∉ [].map t.visited ∧
        ∃ deadline ∈ (t.client j).deadlines, remaining = toInt (deadline - 0)) := by
  obtain ⟨inputs, remaining, t, hrun, -⟩ := reader_runs
  have hsteps : Runs ServerStep (startState listening) inputs (.visiting 0 remaining [], t) :=
    hrun.mono fun _ _ _ hstep => hstep.2
  exact ⟨inputs, remaining, t, hsteps, serverRun_wakes rfl hsteps⟩

end Twinkleshine

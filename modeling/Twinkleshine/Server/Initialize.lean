import Twinkleshine.Server.Pass

/-!
# Starting

Reference: `source/server/initialize.c`.

The server opens a pair of sockets for each protocol, or one where the system has only one family, and fills
up the table of polls behind each pair, so that the place of a poll says which protocol its socket is for.
Whatever the kernel and the allocator answer, a descriptor that is opened is closed once or stands in the
table, and a start that fails leaves none open.
-/

namespace Twinkleshine

open Library

/-! ## Sockets -/

/-- `HTTP_PORT` and its like, by `TWINKLESHINE_RELEASE` -/
def Protocol.port (release : Bool) : Protocol → ℕ
  | .http => if release then 80 else 8080
  | .https => if release then 443 else 8443
  | .gopher => if release then 70 else 8070
  | .finger => if release then 79 else 8079
  | .gemini => if release then 1965 else 9965
  | .spartan => if release then 300 else 8300
  | .nex => if release then 1900 else 9900
  | .text => if release then 1961 else 9961
  | .guppy => if release then 6775 else 14775

/-- A socket that `socket()` has opened. -/
structure OpenedSocket where
  fd : ℕ
  port : ℕ
  ipv6 : Bool
deriving DecidableEq, Repr

/-- The table of polls, and the descriptors that were opened and closed. -/
structure Startup where
  polls : Buffer Poll
  opened : List OpenedSocket
  closed : List ℕ
deriving DecidableEq, Repr

def Startup.zero : Startup := ⟨⟨0, [], 0⟩, [], []⟩

/-- What the calls that set up a socket answer. -/
structure SetUpAnswers where
  /-- The descriptor, where `socket()` succeeds -/
  socket : Option ℕ
  getFlags : Bool
  setFlags : Bool
  reuseAddr : Bool
  v6Only : Bool
  bind : Bool
  listen : Bool
deriving DecidableEq, Repr

/-- Whether all calls behind `socket()` succeed. -/
def SetUpAnswers.ready (answers : SetUpAnswers) (connection ipv6 : Bool) : Bool :=
  answers.getFlags && answers.setFlags && answers.reuseAddr && (!ipv6 || answers.v6Only) && answers.bind &&
    (!connection || answers.listen)

/-- The descriptor of a socket that is set up, and whether no call has failed. -/
def setUpSocket (answers : SetUpAnswers) (port : ℕ) (connection ipv6 : Bool) (s : Startup) :
    Option ℕ × Bool × Startup :=
  match answers.socket with
  | none => (none, false, s)
  | some fd => (some fd, answers.ready connection ipv6, { s with opened := s.opened ++ [⟨fd, port, ipv6⟩] })

/-- A socket is set up if it is tried. -/
def trySocket (tried : Bool) (answers : SetUpAnswers) (port : ℕ) (connection ipv6 : Bool) (s : Startup) :
    Option ℕ × Bool × Startup :=
  if tried then setUpSocket answers port connection ipv6 s else (none, true, s)

/-- An entry of the table that waits for input. -/
def listeningPoll (fd : Option ℕ) : Poll := ⟨fd, ⟨true, false, false, false⟩, .none, 0⟩

/-- `polls_append` for a listening socket -/
def Startup.append (realloc : Option ℕ) (fd : Option ℕ) (s : Startup) : Outcome Error Startup Unit :=
  (genericBufferAppend realloc s.polls [listeningPoll fd]).mapState fun polls => { s with polls := polls }

/-- What is answered while a pair of sockets is tried. -/
structure TryAnswers where
  ipv4 : SetUpAnswers
  ipv6 : SetUpAnswers
  appendIpv4 : Option ℕ
  appendIpv6 : Option ℕ
deriving DecidableEq, Repr

/-- `failure:` -/
def Startup.failure (oldSize : ℕ) (fds : List ℕ) (s : Startup) : Startup :=
  { s with closed := s.closed ++ fds, polls.elements := s.polls.elements.take oldSize }

/-- `server_try_socket_pair`; whether an IPv6 socket is asked to take IPv4 too is part of what
`setsockopt()` and `bind()` answer. -/
def serverTrySocketPair (answers : TryAnswers) (port : ℕ) (connection tryIpv4 tryIpv6 : Bool)
    (s : Startup) : Outcome Error Startup Unit :=
  let oldSize := s.polls.elements.length
  let (fd4, ready4, s) := trySocket tryIpv4 answers.ipv4 port connection false s
  if !ready4 then .ok () (s.failure oldSize fd4.toList)
  else
    let (fd6, ready6, s) := trySocket tryIpv6 answers.ipv6 port connection true s
    if !ready6 then .ok () (s.failure oldSize (fd4.toList ++ fd6.toList))
    else
      ((if tryIpv4 then s.append answers.appendIpv4 fd4 else .ok () s).andThen fun _ s =>
        if tryIpv6 then s.append answers.appendIpv6 fd6 else .ok () s).handle
      (fun e s => .error e (s.failure oldSize (fd4.toList ++ fd6.toList)))
      (fun _ s => .ok () s)

/-- The loop of `server_create_socket_pair` over its modes, each of which tries IPv4, IPv6, or both: the
number of the mode that has worked. -/
def tryModes (answers : ℕ → TryAnswers) (port : ℕ) (connection : Bool) :
    ℕ → List (Bool × Bool) → Startup → Outcome Error Startup ℕ
  | _, [], s => .error "All modes failed" s
  | mode, (tryIpv4, tryIpv6) :: modes, s =>
    (serverTrySocketPair (answers mode) port connection tryIpv4 tryIpv6 s).andThen fun _ t =>
      if t.polls.elements.length > s.polls.elements.length then .ok mode t
      else tryModes answers port connection (mode + 1) modes t

/-- `server_create_socket_pair`: IPv6+IPv4, IPv6 for both families, IPv6 only, IPv4 only -/
def serverCreateSocketPair (answers : ℕ → TryAnswers) (port : ℕ) (connection : Bool) (s : Startup) :
    Outcome Error Startup ℕ :=
  tryModes answers port connection 0 [(true, true), (false, true), (false, true), (true, false)] s

/-- Entries without a socket, one for each answer of the allocator. -/
def appendZeros : List (Option ℕ) → Startup → Outcome Error Startup Unit
  | [], s => .ok () s
  | realloc :: reallocs, s => (s.append realloc none).andThen fun _ s => appendZeros reallocs s

/-- What is answered while the sockets of a protocol are opened. -/
structure PairAnswers where
  tries : ℕ → TryAnswers
  zeros : ℕ → Option ℕ

/-- The sockets of protocols, and the entries behind them: `for (;polls->size < n;)`. -/
def initializeProtocols (release : Bool) (answers : ℕ → PairAnswers) :
    ℕ → List Protocol → Startup → Outcome Error Startup Unit
  | _, [], s => .ok () s
  | k, protocol :: protocols, s =>
    (serverCreateSocketPair (answers k).tries (protocol.port release) (protocol ≠ .guppy) s).andThen fun _ s =>
      (appendZeros ((List.range (2 * (k + 1) - s.polls.elements.length)).map (answers k).zeros) s).andThen
        fun _ s => initializeProtocols release answers (k + 1) protocols s

/-- `server_initialize`; `ignored` is the answer of `signal()`. -/
def serverInitialize (release : Bool) (ignored : Except String Unit) (answers : ℕ → PairAnswers)
    (s : Startup) : Outcome Error Startup Unit :=
  match ignored with
  | .error errno => .error s!"signal() failed with {errno}" s
  | .ok _ => initializeProtocols release answers 0
    [.http, .https, .gopher, .finger, .gemini, .spartan, .nex, .text, .guppy] s

/-- The part of `server_finalize` that closes the sockets of the table. -/
def serverFinalize (s : Startup) : Startup :=
  { s with polls := ⟨0, [], 0⟩, closed := s.closed ++ s.polls.elements.filterMap Poll.fd }

/-! ## What is opened and what is closed -/

/-- What has become of a table while sockets for a port were opened: `new` was appended to it, and the
descriptors `pending` are open and stand nowhere yet. -/
structure Opens (port : ℕ) (s t : Startup) (pending : List ℕ) (new : List Poll) : Prop where
  polls : t.polls.elements = s.polls.elements ++ new
  opened : s.opened <+: t.opened
  pendingPort : ∀ fd ∈ pending, ∃ ipv6, ⟨fd, port, ipv6⟩ ∈ t.opened
  newPort : ∀ fd ∈ new.filterMap Poll.fd, ∃ ipv6, ⟨fd, port, ipv6⟩ ∈ t.opened
  balanced : ∀ fd, (t.opened.map OpenedSocket.fd).count fd + s.closed.count fd
    = (s.opened.map OpenedSocket.fd).count fd + t.closed.count fd + pending.count fd
      + (new.filterMap Poll.fd).count fd

section

variable {port : ℕ} {s t u : Startup} {pending : List ℕ} {new : List Poll}

theorem Opens.refl (port : ℕ) (s : Startup) : Opens port s s [] [] where
  polls := (List.append_nil _).symm
  opened := List.prefix_rfl
  pendingPort fd h := absurd h List.not_mem_nil
  newPort fd h := absurd h List.not_mem_nil
  balanced fd := by simp

theorem Opens.length (h : Opens port s t pending new) :
    t.polls.elements.length = s.polls.elements.length + new.length := by
  rw [h.polls, List.length_append]

/-- One pair of sockets is opened after another. -/
theorem Opens.trans {new' : List Poll} (h : Opens port s t [] new) (h' : Opens port t u [] new') :
    Opens port s u [] (new ++ new') where
  polls := by rw [h'.polls, h.polls, List.append_assoc]
  opened := h.opened.trans h'.opened
  pendingPort := h'.pendingPort
  newPort fd hfd := by
    rw [List.filterMap_append] at hfd
    obtain hfd | hfd := List.mem_append.mp hfd
    · obtain ⟨ipv6, hmem⟩ := h.newPort fd hfd
      exact ⟨ipv6, h'.opened.subset hmem⟩
    · exact h'.newPort fd hfd
  balanced fd := by
    have hbalanced := h.balanced fd
    have hbalanced' := h'.balanced fd
    rw [List.count_nil] at hbalanced hbalanced' ⊢
    rw [List.filterMap_append, List.count_append]
    omega

/-- A socket that is set up is pending, whether a call has failed or not. -/
theorem Opens.trySocket (h : Opens port s t pending new) (tried : Bool) (answers : SetUpAnswers)
    (connection ipv6 : Bool) :
    Opens port s (trySocket tried answers port connection ipv6 t).2.2
        (pending ++ (trySocket tried answers port connection ipv6 t).1.toList) new ∧
      ((trySocket tried answers port connection ipv6 t).2.1 = true →
        (trySocket tried answers port connection ipv6 t).1.isSome = tried) := by
  unfold Twinkleshine.trySocket setUpSocket
  cases tried with
  | false =>
    simp only [Bool.false_eq_true, if_false, Option.toList_none, List.append_nil]
    exact ⟨h, fun _ => rfl⟩
  | true =>
    simp only [if_true]
    rcases answers.socket with _ | fd
    · simp only [Option.toList_none, List.append_nil]
      exact ⟨h, fun hready => absurd hready Bool.false_ne_true⟩
    · refine ⟨⟨h.polls, h.opened.trans (List.prefix_append _ _), fun other hother => ?_, fun other hother => ?_,
        fun other => ?_⟩, fun _ => rfl⟩
      · obtain hother | hother := List.mem_append.mp hother
        · obtain ⟨family, hmem⟩ := h.pendingPort other hother
          exact ⟨family, List.mem_append_left _ hmem⟩
        · obtain rfl := List.mem_singleton.mp hother
          exact ⟨ipv6, List.mem_append_right _ List.mem_cons_self⟩
      · obtain ⟨family, hmem⟩ := h.newPort other hother
        exact ⟨family, List.mem_append_left _ hmem⟩
      · have hbalanced := h.balanced other
        simp only [List.map_append, List.count_append, List.map_cons, List.map_nil, Option.toList_some]
        omega

/-- Closing whatever is pending or new leaves nothing open. -/
theorem Opens.failure (h : Opens port s t pending new) {fds : List ℕ}
    (hfds : ∀ fd, fds.count fd = pending.count fd + (new.filterMap Poll.fd).count fd) :
    Opens port s (t.failure s.polls.elements.length fds) [] [] where
  polls := by rw [Startup.failure, h.polls, List.take_left, List.append_nil]
  opened := h.opened
  pendingPort fd h := absurd h List.not_mem_nil
  newPort fd h := absurd h List.not_mem_nil
  balanced fd := by
    have hbalanced := h.balanced fd
    have hcount := hfds fd
    simp only [Startup.failure, List.count_append, List.count_nil, List.filterMap_nil]
    omega

/-- A pending descriptor goes into the table. -/
theorem Opens.append {fd : Option ℕ} (h : Opens port s t (fd.toList ++ pending) new) {polls : Buffer Poll}
    (hpolls : polls.elements = t.polls.elements ++ [listeningPoll fd]) :
    Opens port s { t with polls := polls } pending (new ++ [listeningPoll fd]) := by
  have hlast : [listeningPoll fd].filterMap Poll.fd = fd.toList := by cases fd <;> rfl
  refine ⟨by rw [← List.append_assoc, ← h.polls, hpolls], h.opened,
    fun other hother => h.pendingPort other (List.mem_append_right _ hother), fun other hother => ?_,
    fun other => ?_⟩
  · rw [List.filterMap_append, hlast] at hother
    obtain hother | hother := List.mem_append.mp hother
    · exact h.newPort other hother
    · exact h.pendingPort other (List.mem_append_left _ hother)
  · have hbalanced := h.balanced other
    rw [List.count_append] at hbalanced
    rw [List.filterMap_append, hlast, List.count_append]
    dsimp only
    omega

/-! ## A pair of sockets -/

/-- Appending to a table that is not too large returns. -/
theorem Startup.append_ensures (realloc fd : Option ℕ) (hsize : s.polls.elements.length + 1 ≤ 2 ^ 63) :
    (s.append realloc fd).Ensures
      (fun _ t => ∃ polls, t = { s with polls := polls } ∧
        polls.elements = s.polls.elements ++ [listeningPoll fd])
      fun _ t => t = s := by
  have hneeded : s.polls.elements.length + [listeningPoll fd].length ≤ 2 ^ 63 := hsize
  unfold Startup.append genericBufferAppend
  by_cases hfull : s.polls.elements.length + [listeningPoll fd].length > s.polls.capacity
  · obtain ⟨m, -, -, heq⟩ := growCapacity_some 66 63
      (show 0 < if s.polls.capacity = 0 then 1 else s.polls.capacity by split_ifs <;> omega) hneeded
      (by split_ifs <;> omega) (by omega)
    simp only [if_pos hfull, heq]
    rcases realloc with _ | newP
    · exact rfl
    · exact ⟨_, rfl, rfl⟩
  · simp only [if_neg hfull]
    exact ⟨_, rfl, rfl⟩

/-- The socket of a family that was tried goes into the table. -/
theorem Opens.appendTried {tried : Bool} {fd : Option ℕ} (h : Opens port s t (fd.toList ++ pending) new)
    (htried : fd.isSome = tried) (realloc : Option ℕ) (hsize : t.polls.elements.length + 1 ≤ 2 ^ 63) :
    (if tried then t.append realloc fd else .ok () t).Ensures
      (fun _ u => ∃ added, Opens port s u pending (new ++ added) ∧ added.length ≤ 1 ∧
        (∀ poll ∈ added, poll.fd.isSome = true) ∧ added.filterMap Poll.fd = fd.toList)
      fun _ u => u = t := by
  subst htried
  rcases fd with _ | fd
  · refine ⟨[], ?_, Nat.zero_le _, fun poll h => absurd h List.not_mem_nil, rfl⟩
    rwa [List.append_nil]
  · rw [if_pos (by exact rfl)]
    refine (Startup.append_ensures realloc (some fd) hsize).mono ?_ fun _ _ h => h
    rintro _ u ⟨polls, rfl, hpolls⟩
    refine ⟨[listeningPoll (some fd)], h.append hpolls, le_rfl, fun poll hpoll => ?_, rfl⟩
    rw [List.mem_singleton.mp hpoll]
    rfl

/-- A pair is tried: some of its sockets are in the table, or everything is as it was, whatever fails. -/
theorem serverTrySocketPair_ensures (answers : TryAnswers) (port : ℕ) (connection tryIpv4 tryIpv6 : Bool)
    (hsize : s.polls.elements.length + 2 ≤ 2 ^ 63) :
    (serverTrySocketPair answers port connection tryIpv4 tryIpv6 s).Ensures
      (fun _ t => ∃ new, Opens port s t [] new ∧ new.length ≤ 2 ∧ ∀ poll ∈ new, poll.fd.isSome = true)
      fun _ t => Opens port s t [] [] := by
  have hnone : ∀ poll ∈ ([] : List Poll), poll.fd.isSome = true := fun poll h => absurd h List.not_mem_nil
  unfold serverTrySocketPair
  obtain ⟨h4, hready4⟩ := (Opens.refl port s).trySocket tryIpv4 answers.ipv4 connection false
  generalize trySocket tryIpv4 answers.ipv4 port connection false s = first at h4 hready4 ⊢
  obtain ⟨fd4, ready4, s4⟩ := first
  dsimp only at h4 hready4 ⊢
  cases ready4 with
  | false => exact ⟨[], h4.failure (fun fd => by simp), Nat.zero_le _, hnone⟩
  | true =>
  obtain ⟨h6, hready6⟩ := h4.trySocket tryIpv6 answers.ipv6 connection true
  generalize trySocket tryIpv6 answers.ipv6 port connection true s4 = second at h6 hready6 ⊢
  obtain ⟨fd6, ready6, s6⟩ := second
  dsimp only at h6 hready6 ⊢
  cases ready6 with
  | false => exact ⟨[], h6.failure (fun fd => by simp), Nat.zero_le _, hnone⟩
  | true =>
  have hpending : Opens port s s6 (fd4.toList ++ fd6.toList) [] := by simpa using h6
  have hlength : s6.polls.elements.length = s.polls.elements.length := hpending.length
  have happended : ((if tryIpv4 then s6.append answers.appendIpv4 fd4 else .ok () s6).andThen fun _ s =>
      if tryIpv6 then s.append answers.appendIpv6 fd6 else .ok () s).Ensures
      (fun _ u => ∃ new, Opens port s u [] new ∧ new.length ≤ 2 ∧ ∀ poll ∈ new, poll.fd.isSome = true)
      fun _ u => ∃ pending new, Opens port s u pending new ∧
        ∀ fd, (fd4.toList ++ fd6.toList).count fd = pending.count fd + (new.filterMap Poll.fd).count fd := by
    refine (hpending.appendTried (hready4 rfl) answers.appendIpv4 (by omega)).andThen ?_ ?_
    · rintro _ u ⟨added4, hadded4, hlength4, hsome4, hfds4⟩
      rw [List.nil_append] at hadded4
      have hpending6 : Opens port s u (fd6.toList ++ []) added4 := by rwa [List.append_nil]
      have hgrown := hadded4.length
      refine (hpending6.appendTried (hready6 rfl) answers.appendIpv6 (by omega)).mono ?_ ?_
      · rintro _ v ⟨added6, hadded6, hlength6, hsome6, -⟩
        refine ⟨added4 ++ added6, hadded6, ?_, fun poll hpoll => ?_⟩
        · rw [List.length_append]
          omega
        · exact (List.mem_append.mp hpoll).elim (hsome4 poll) (hsome6 poll)
      · rintro _ v rfl
        refine ⟨fd6.toList, added4, hadded4, fun fd => ?_⟩
        rw [hfds4, List.count_append, Nat.add_comm]
    · rintro _ u rfl
      exact ⟨_, [], hpending, fun fd => by simp⟩
  -- a failure in between closes both sockets, wherever they stand
  refine happended.handle (fun _ u h => h) ?_
  rintro _ u ⟨pending, new, hnew, hcount⟩
  exact hnew.failure hcount

/-- The modes are tried in their order, until one opens a socket. -/
theorem tryModes_ensures (answers : ℕ → TryAnswers) (port : ℕ) (connection : Bool)
    (modes : List (Bool × Bool)) (mode : ℕ) (hsize : s.polls.elements.length + 2 ≤ 2 ^ 63) :
    (tryModes answers port connection mode modes s).Ensures
      (fun _ t => ∃ new, Opens port s t [] new ∧ new ≠ [] ∧ new.length ≤ 2 ∧
        ∀ poll ∈ new, poll.fd.isSome = true)
      fun _ t => Opens port s t [] [] := by
  induction modes generalizing mode s with
  | nil => exact Opens.refl port s
  | cons tried modes ih =>
    obtain ⟨tryIpv4, tryIpv6⟩ := tried
    rw [tryModes]
    refine (serverTrySocketPair_ensures (answers mode) port connection tryIpv4 tryIpv6 hsize).andThen ?_
      fun _ _ h => h
    rintro _ t ⟨new, hnew, hlength, hsome⟩
    have hgrown := hnew.length
    split_ifs with hsuccess
    · refine ⟨new, hnew, ?_, hlength, hsome⟩
      rintro rfl
      rw [List.length_nil] at hgrown
      omega
    · obtain rfl : new = [] := List.eq_nil_of_length_eq_zero (by omega)
      refine (ih (mode + 1) (by rw [hgrown, List.length_nil]; omega)).mono ?_ ?_
      · rintro _ u ⟨new, hnew', hrest⟩
        exact ⟨new, hnew.trans hnew', hrest⟩
      · exact fun _ u h => hnew.trans h

/-- The table is filled up with entries that have no socket. -/
theorem appendZeros_ensures (port : ℕ) (reallocs : List (Option ℕ))
    (hsize : s.polls.elements.length + reallocs.length ≤ 2 ^ 63) :
    (appendZeros reallocs s).Ensures
      (fun _ t => Opens port s t [] (List.replicate reallocs.length (listeningPoll none)))
      fun _ t => ∃ new, Opens port s t [] new := by
  induction reallocs generalizing s with
  | nil => exact Opens.refl port s
  | cons realloc reallocs ih =>
    rw [List.length_cons] at hsize
    rw [appendZeros]
    refine (Startup.append_ensures realloc none (by omega)).andThen ?_ ?_
    · rintro _ t ⟨polls, rfl, hpolls⟩
      have hfirst : Opens port s { s with polls := polls } [] ([] ++ [listeningPoll none]) :=
        (show Opens port s s ((none : Option ℕ).toList ++ []) [] from Opens.refl port s).append hpolls
      refine (ih ?_).mono ?_ ?_
      · dsimp only
        rw [hpolls, List.length_append, List.length_singleton]
        omega
      · exact fun _ u h => hfirst.trans h
      · rintro _ u ⟨new, hnew⟩
        exact ⟨_, hfirst.trans hnew⟩
    · rintro _ t rfl
      exact ⟨[], Opens.refl port t⟩

end

/-! ## The table -/

/-- Every descriptor was closed as often as it was opened, but for those of the table. -/
def Startup.Balanced (s : Startup) : Prop :=
  ∀ fd, (s.opened.map OpenedSocket.fd).count fd
    = s.closed.count fd + (s.polls.elements.filterMap Poll.fd).count fd

/-- The table has a pair of entries for each protocol, of which the first has a socket, and its sockets are
for the port of their protocol. -/
structure Startup.Lists (release : Bool) (protocols : List Protocol) (s : Startup) : Prop where
  length : s.polls.elements.length = 2 * protocols.length
  first : ∀ k < protocols.length, (s.polls.elements.getD (2 * k) .zero).fd.isSome = true
  port : ∀ i < s.polls.elements.length, ∀ fd ∈ (s.polls.elements.getD i .zero).fd,
    ∃ ipv6, ⟨fd, (protocols.getD (i / 2) .http).port release, ipv6⟩ ∈ s.opened
  balanced : s.Balanced

section

variable {release : Bool} {protocols : List Protocol} {port : ℕ} {s t : Startup} {new : List Poll}

theorem Opens.keepsBalanced (h : Opens port s t [] new) (hs : s.Balanced) : t.Balanced := by
  intro fd
  have hopens := h.balanced fd
  have hbalanced := hs fd
  rw [h.polls, List.filterMap_append, List.count_append]
  rw [List.count_nil] at hopens
  omega

/-- A pair of entries is appended for the next protocol. -/
theorem Startup.Lists.append {protocol : Protocol} (hs : s.Lists release protocols)
    (h : Opens (protocol.port release) s t [] new) (hlength : new.length = 2)
    (hfirst : ∀ poll ∈ new.head?, poll.fd.isSome = true) : t.Lists release (protocols ++ [protocol]) := by
  obtain ⟨first, second, rfl⟩ := List.length_eq_two.mp hlength
  have hold : ∀ i < s.polls.elements.length,
      t.polls.elements.getD i .zero = s.polls.elements.getD i .zero := by
    intro i hi
    rw [h.polls, List.getD_append _ _ _ _ hi]
  have hnew : ∀ i, s.polls.elements.length ≤ i →
      t.polls.elements.getD i .zero = [first, second].getD (i - s.polls.elements.length) .zero := by
    intro i hi
    rw [h.polls, List.getD_append_right _ _ _ _ hi]
  have hsize := hs.length
  refine ⟨?_, fun k hk => ?_, fun i hi fd hfd => ?_, h.keepsBalanced hs.balanced⟩
  · rw [h.length, List.length_append, hs.length, hlength, List.length_singleton]
    omega
  · rw [List.length_append, List.length_singleton] at hk
    obtain hk | rfl := Nat.lt_succ_iff_lt_or_eq.mp hk
    · rw [hold _ (by omega)]
      exact hs.first k hk
    · rw [hnew _ hsize.le, hsize, Nat.sub_self]
      exact hfirst first rfl
  · by_cases hi' : i < s.polls.elements.length
    · rw [hold i hi'] at hfd
      obtain ⟨ipv6, hmem⟩ := hs.port i hi' fd hfd
      refine ⟨ipv6, h.opened.subset ?_⟩
      rwa [List.getD_append _ _ _ _ (by omega)]
    · rw [not_lt] at hi'
      rw [h.length, hlength] at hi
      rw [hnew i hi'] at hfd
      have hindex : i / 2 = protocols.length := by omega
      rw [hindex, List.getD_append_right _ _ _ _ le_rfl, Nat.sub_self]
      refine h.newPort fd (List.mem_filterMap.mpr ⟨[first, second].getD (i - s.polls.elements.length) .zero,
        ?_, hfd⟩)
      rw [List.getD_eq_getElem _ _ (by rw [hlength]; omega)]
      exact List.getElem_mem _

/-- The sockets of the protocols are opened one after the other. -/
theorem initializeProtocols_ensures (release : Bool) (answers : ℕ → PairAnswers) (rest : List Protocol)
    {done : List Protocol} (hs : s.Lists release done) (hsize : 2 * (done.length + rest.length) ≤ 2 ^ 62) :
    (initializeProtocols release answers done.length rest s).Ensures
      (fun _ t => t.Lists release (done ++ rest)) fun _ t => t.Balanced := by
  induction rest generalizing s done with
  | nil =>
    rw [List.append_nil]
    exact hs
  | cons protocol rest ih =>
    have hlength := hs.length
    rw [List.length_cons] at hsize
    rw [initializeProtocols]
    refine (tryModes_ensures (answers done.length).tries (protocol.port release) (protocol ≠ .guppy) _ 0
      (by omega)).andThen ?_ fun _ _ h => h.keepsBalanced hs.balanced
    rintro _ t ⟨new, hnew, hne, htwo, hsome⟩
    have hgrown := hnew.length
    refine (appendZeros_ensures (protocol.port release) _ ?_).andThen ?_ ?_
    · rw [List.length_map, List.length_range]
      omega
    · rintro _ u hzeros
      rw [List.length_map, List.length_range] at hzeros
      obtain ⟨poll, others, rfl⟩ := List.exists_cons_of_ne_nil hne
      have hlists : u.Lists release (done ++ [protocol]) := by
        refine hs.append (hnew.trans hzeros) ?_ ?_
        · rw [List.length_append, List.length_replicate]
          omega
        · rintro first hfirst
          obtain rfl : poll = first := Option.some.inj hfirst
          exact hsome poll List.mem_cons_self
      have hnext := ih hlists (by
        rw [List.length_append, List.length_singleton]
        omega)
      rw [List.length_append, List.length_singleton, List.append_assoc, List.singleton_append] at hnext
      exact hnext
    · rintro _ u ⟨zeros, hzeros⟩
      exact (hnew.trans hzeros).keepsBalanced hs.balanced

/-- A start leaves a pair of entries for each protocol. -/
theorem serverInitialize_lists (release : Bool) (ignored : Except String Unit)
    (answers : ℕ → PairAnswers) :
    (serverInitialize release ignored answers .zero).Ensures
      (fun _ s => s.Lists release [.http, .https, .gopher, .finger, .gemini, .spartan, .nex, .text, .guppy])
      fun _ s => s.Balanced := by
  have hzero : Startup.zero.Lists release [] :=
    ⟨rfl, fun k hk => absurd hk (Nat.not_lt_zero k), fun i hi => absurd hi (Nat.not_lt_zero i), fun _ => rfl⟩
  unfold serverInitialize
  cases ignored with
  | error errno => exact hzero.balanced
  | ok _ => exact initializeProtocols_ensures release answers _ hzero (by decide)

/-- The place of a socket says by which protocol it is served, and it is bound to the port of this one. -/
theorem Startup.Lists.port_acceptingSocket
    (hs : s.Lists release [.http, .https, .gopher, .finger, .gemini, .spartan, .nex, .text, .guppy]) :
    ∀ i < acceptingSockets, ∀ fd ∈ (s.polls.elements.getD i .zero).fd,
      ∃ ipv6, ⟨fd, (acceptingSocketProtocol i).port release, ipv6⟩ ∈ s.opened := by
  have hprotocol : ∀ i < acceptingSockets,
      ([.http, .https, .gopher, .finger, .gemini, .spartan, .nex, .text, .guppy] : List Protocol).getD (i / 2)
        .http = acceptingSocketProtocol i := by
    decide
  have hlength : s.polls.elements.length = acceptingSockets := hs.length
  intro i hi fd hfd
  obtain ⟨ipv6, hmem⟩ := hs.port i (hlength ▸ hi) fd hfd
  rw [hprotocol i hi] at hmem
  exact ⟨ipv6, hmem⟩

end

/-- Starting ends, whatever the kernel and the allocator answer. It leaves a table on which the server can
run: each accepting socket has its entry, the first of each pair has a socket, the sockets are bound to the
port of the protocol by which their place is served, and no other descriptor is open. A start that fails
leaves no descriptor open. -/
theorem serverInitialize_ensures (release : Bool) (ignored : Except String Unit)
    (answers : ℕ → PairAnswers) :
    (serverInitialize release ignored answers .zero).Ensures
      (fun _ s => s.polls.elements.length = acceptingSockets ∧
        (∀ k < 9, (s.polls.elements.getD (2 * k) .zero).fd.isSome = true) ∧
        (∀ i < acceptingSockets, ∀ fd ∈ (s.polls.elements.getD i .zero).fd,
          ∃ ipv6, ⟨fd, (acceptingSocketProtocol i).port release, ipv6⟩ ∈ s.opened) ∧ s.Balanced)
      fun _ s => ∀ fd, ((serverFinalize s).opened.map OpenedSocket.fd).count fd
        = (serverFinalize s).closed.count fd := by
  refine (serverInitialize_lists release ignored answers).mono (fun _ s hs => ?_) fun _ s hs fd => ?_
  · exact ⟨hs.length, hs.first, hs.port_acceptingSocket, hs.balanced⟩
  · rw [serverFinalize, List.count_append]
    exact hs fd

end Twinkleshine

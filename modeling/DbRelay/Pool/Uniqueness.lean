import DbRelay.Pool.Isolation

/-!
# One slot for each named key

`dbrelay_db_get_connection` looks for the key of a request in one critical
section and takes a free slot in another.  `UniqueKeys` says that no two
occupied slots have the same named key, and it has an exact guard.  It holds in
every state of a run if and only if no allocation of the run comes too late:
whenever a slot is taken for a named key, the key is still absent.
-/

namespace DbRelay.Pool

open Function StepSystem

variable {W : Type}

/-- No two occupied slots agree on a named key. -/
def UniqueKeys (s : State W) : Prop :=
  ∀ i j, (s.connections i).pid ≠ none → (s.connections j).pid ≠ none →
    (s.connections i).connectionName.isSet = true →
      (s.connections i).key = (s.connections j).key → i = j

/-- Every occupied slot that matches a named request is the one that a search
for the request finds. -/
def Directed (s : State W) : Prop :=
  ∀ request, request.named = true → ∀ i, (s.connections i).pid ≠ none →
    dbMatch (s.connections i) request = true →
      dbFindSlot s.connections request = some i

/-- The same property in terms of requests. -/
theorem uniqueKeys_iff {s : State W} :
    UniqueKeys s ↔ ∀ request i j, request.named = true →
      (s.connections i).pid ≠ none → (s.connections j).pid ≠ none →
      dbMatch (s.connections i) request = true →
      dbMatch (s.connections j) request = true → i = j := by
  constructor
  · intro h request i j hnamed hi hj hmi hmj
    have hset := (named_of_dbMatch hmi).trans hnamed
    exact h i j hi hj hset (key_eq_of_dbMatch hmi hmj)
  · intro h i j hi hj hset hkey
    have hmj : dbMatch (s.connections j) (s.connections i).key = true :=
      hkey ▸ dbMatch_key (s.connections j)
    exact h (s.connections i).key i j hset hi hj (dbMatch_key _) hmj

theorem directed_of_uniqueKeys {s : State W} (hs : UniqueKeys s) : Directed s := by
  intro request hnamed i hi hmatch
  cases hfind : dbFindSlot s.connections request with
  | none =>
    have := dbFindSlot_none.1 hfind i hi
    rw [hmatch] at this
    cases this
  | some j =>
    obtain ⟨hj, hmj⟩ := dbFindSlot_some hfind
    rw [uniqueKeys_iff.1 hs request j i hnamed hj hi hmj hmatch]

variable [DecidableEq W]

/-- A slot that is taken for a named key is taken while the key is absent. -/
def keyAbsent (s : State W) : Event W → Bool
  | .alloc w tmpnam =>
    match s.workers w with
    | .allocate request _ =>
      !request.named || (newSockPath request tmpnam).join.isNone ||
        (firstFree s.connections).isNone || (dbFindSlot s.connections request).isNone
    | _ => true
  | _ => true

omit [DecidableEq W] in
/-- The record that an allocation leaves in the slot, when it is taken for a
named request. -/
theorem populate_taken (s : State W) (w : W) (request : Request)
    (db : Option Handle) (path : Option SockPath) (i : Slot) :
    (((s.populate w i request db path).connections i).pid ≠ none →
      request.named = true → path ≠ none) ∧
    dbMatch ((s.populate w i request db path).connections i) request = true := by
  rw [State.populate_self]
  refine ⟨?_, dbMatch_populate request db path s.now w⟩
  rintro hpid hnamed rfl
  exact hpid (dbPopulateConnection_pid_none request db s.now w hnamed)

/-- The step lemma. -/
theorem uniqueKeys_step {s s' : State W} {e : Event W} (hs : UniqueKeys s)
    (hguard : keyAbsent s e = true) (h : step s e = some s') : UniqueKeys s' := by
  rw [uniqueKeys_iff] at hs ⊢
  intro request i j hnamed hi hj hmi hmj
  rcases keeps_or_populates (stepRel_of_step h) with
    ⟨hkeep, -⟩ | ⟨w, tmpnam, r, db, path, k, rfl, hphase, hpath, hfree, rfl⟩
  · rw [(hkeep i hi).key] at hmi
    rw [(hkeep j hj).key] at hmj
    rw [(hkeep i hi).pid] at hi
    rw [(hkeep j hj).pid] at hj
    exact hs request i j hnamed hi hj hmi hmj
  · have hother : ∀ l, l ≠ k →
        (s.populate w k r db path).connections l = s.connections l :=
      fun l hl => s.populate_of_ne w hl r db path
    simp only [State.setPhase] at hi hj hmi hmj
    -- A slot other than the new one has another key.
    have hnew : ∀ l, l ≠ k → (s.connections l).pid ≠ none →
        dbMatch (s.connections l) request = true →
        ((s.populate w k r db path).connections k).pid ≠ none →
        dbMatch ((s.populate w k r db path).connections k) request = true → False := by
      intro l hl hpid hml hk hmk
      obtain ⟨hsome, hmr⟩ := populate_taken s w r db path k
      have hkey := key_eq_of_dbMatch hmk hml
      have hlr := dbMatch_of_key_eq hkey hmr
      have hr : r.named = true :=
        (named_of_dbMatch hlr).symm.trans ((named_of_dbMatch hml).trans hnamed)
      have hfound : dbFindSlot s.connections r ≠ none := fun hnone => by
        rw [dbFindSlot_none.1 hnone l hpid] at hlr
        cases hlr
      cases path with
      | none => exact hsome hk hr rfl
      | some path => simp [keyAbsent, hphase, hr, hpath, hfree, hfound] at hguard
    by_cases hik : i = k <;> by_cases hjk : j = k
    · rw [hik, hjk]
    · subst hik
      rw [hother j hjk] at hj hmj
      exact (hnew j hjk hj hmj hi hmi).elim
    · subst hjk
      rw [hother i hik] at hi hmi
      exact (hnew i hik hi hmi hj hmj).elim
    · rw [hother i hik] at hi hmi
      rw [hother j hjk] at hj hmj
      exact hs request i j hnamed hi hj hmi hmj

/-- A slot that is taken for a key that another slot has breaks uniqueness. -/
theorem not_uniqueKeys_step {s s' : State W} {e : Event W}
    (hguard : ¬ keyAbsent s e = true) (h : step s e = some s') : ¬ UniqueKeys s' := by
  cases e with
  | alloc w tmpnam =>
    simp only [step] at h
    split at h
    · rename_i request db hphase
      simp only [keyAbsent, hphase, Bool.or_eq_true, not_or,
        Option.isNone_iff_eq_none, ← ne_eq, Option.ne_none_iff_exists'] at hguard
      obtain ⟨⟨⟨hnamed, path, hjoin⟩, i, hfree⟩, j, hfound⟩ := hguard
      have hpath := Option.join_eq_some_iff.1 hjoin
      simp only [hpath, hfree, Option.some.injEq] at h
      subst h
      have hi := firstFree_some hfree
      obtain ⟨hj, hmj⟩ := dbFindSlot_some hfound
      have hne : j ≠ i := fun hji => hj (hji ▸ hi)
      obtain ⟨hpid, -⟩ := dbPopulateConnection_taken request db (some path) s.now w
        fun _ => Option.some_ne_none path
      have hslot : ((s.populate w i request db (some path)).connections i).pid = some w := by
        rw [State.populate_self]
        exact hpid
      have hother := s.populate_of_ne w hne request db (some path)
      intro hs
      refine hne (uniqueKeys_iff.1 hs request j i (by simpa using hnamed) ?_ ?_ ?_ ?_)
      · show ((s.populate w i request db (some path)).connections j).pid ≠ none
        rw [hother]
        exact hj
      · show ((s.populate w i request db (some path)).connections i).pid ≠ none
        rw [hslot]
        exact Option.some_ne_none w
      · show dbMatch ((s.populate w i request db (some path)).connections j) request = true
        rw [hother]
        exact hmj
      · exact (populate_taken s w request db (some path) i).2
    · cases h
  | _ => exact absurd rfl hguard

/-- The named keys of the occupied slots are distinct in every state of a run
if and only if no allocation of the run comes too late. -/
theorem uniqueKeys_iff_keyAbsent (now : Int) (es : List (Event W)) :
    AllStates step (fun s => UniqueKeys s ∧ Directed s) (initial now) es ↔
      AllSteps step (fun s e => keyAbsent s e = true) (initial now) es := by
  have hinitial : UniqueKeys (initial now : State W) := fun i _ hi => absurd rfl hi
  refine allStates_iff_allSteps ?_ ?_ ⟨hinitial, directed_of_uniqueKeys hinitial⟩
  · intro s e s' hs hguard hstep
    have hs' := uniqueKeys_step hs.1 hguard hstep
    exact ⟨hs', directed_of_uniqueKeys hs'⟩
  · intro s e s' _ hguard hstep hs'
    exact not_uniqueKeys_step hguard hstep hs'.1

/-- Two workers look for the same key before either of them has taken a slot. -/
def lateAllocation : List (Event (Fin workers)) :=
  [.arrive 0 (poolRequest alice), .find 0, .arrive 1 (poolRequest alice), .find 1,
    .alloc 0 (some firstPath), .alloc 1 (some secondPath)]

/-- Two different slots are occupied under the same named key. -/
def sameKey (i j : Slot) (s : State (Fin workers)) : Bool :=
  decide (i ≠ j) && (s.connections i).pid.isSome && (s.connections j).pid.isSome &&
    (s.connections i).connectionName.isSet &&
    decide ((s.connections i).key = (s.connections j).key)

theorem not_uniqueKeys_of_sameKey (i j : Slot) (s : State (Fin workers))
    (h : sameKey i j s = true) : ¬ (UniqueKeys s ∧ Directed s) := by
  simp only [sameKey, Bool.and_eq_true, decide_eq_true_eq,
    Option.isSome_iff_ne_none] at h
  obtain ⟨⟨⟨⟨hne, hi⟩, hj⟩, hset⟩, hkey⟩ := h
  exact fun hs => hne (hs.1 i j hi hj hset hkey)

theorem not_uniqueKeys_lateAllocation :
    ¬ AllStates step (fun s => UniqueKeys s ∧ Directed s) (initial 0) lateAllocation :=
  not_allStates_of_run (not_uniqueKeys_of_sameKey ⟨0, by decide⟩ ⟨1, by decide⟩) (by decide +kernel)

end DbRelay.Pool

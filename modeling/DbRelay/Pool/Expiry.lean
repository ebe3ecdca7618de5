import DbRelay.Pool.System
import DbRelay.Lib.Decimal

/-!
# What the reaper frees

`dbrelay_db_close_connections` adds a timeout to a time in a `long`, where the sum wraps.
Here its answer is compared with the one in exact integers.

* `Expired` says which occupied slots should be freed.
* `Wraps` says when a wrapped sum lies on the other side of the clock.
* `reapsExpired_iff`: exactly the expired slots are freed unless a sum wraps and nothing else
  decides the slot.
-/

namespace DbRelay.Pool

variable {W : Type}

/-! ## Expired connections -/

/-- The values of a `long`, which are the ones of a `time_t`. -/
def InLong (a : Int) : Prop := -2 ^ 63 ≤ a ∧ a < 2 ^ 63

/-- The record should be freed, with times compared as integers. -/
def Expired (alive : W → Bool) (now : Int) (conn : Connection W) : Prop :=
  orphaned alive conn = true ∨
    hardTimeout < now - conn.tmAccessed ∨
    conn.inUse = 0 ∧ conn.connectionTimeout.toInt < now - conn.tmAccessed

/-- The occupied slots that are expired are freed, and nothing else changes. -/
def ReapsExpired [DecidableEq W] (s : State W) (w : W) (now : Int) : Prop :=
  ∀ i, ((s.connections i).pid ≠ none → Expired s.alive now (s.connections i) →
      ((s.reapAll w now).connections i).pid = none) ∧
    (¬((s.connections i).pid ≠ none ∧ Expired s.alive now (s.connections i)) →
      (s.reapAll w now).connections i = s.connections i)

/-- The sum leaves the range of a `long`, and the wrapped sum is on the other side of
`now`. -/
def Wraps (t timeout now : Int) : Prop :=
  2 ^ 63 ≤ t + timeout ∧ t + timeout - 2 ^ 64 < now ∨
    t + timeout < -2 ^ 63 ∧ now ≤ t + timeout + 2 ^ 64

/-- A sum that wraps does not decide the slot.  With the hard timeout, the slot is free of
users and its own timeout has passed.  With its own timeout, it has users or it passes the
hard one. -/
def WrapsHarmlessly (now : Int) (conn : Connection W) : Prop :=
  (Wraps conn.tmAccessed hardTimeout now →
      conn.inUse = 0 ∧ conn.connectionTimeout.toInt < now - conn.tmAccessed) ∧
    (Wraps conn.tmAccessed conn.connectionTimeout.toInt now → conn.inUse = 0 →
      hardExpired conn now = true)

/-! ## Sums -/

theorem wraps_iff {t timeout now : Int} (ht : InLong t) (htimeout : InLong timeout)
    (hnow : InLong now) :
    Wraps t timeout now ↔ ¬(addLong t timeout < now ↔ timeout < now - t) := by
  unfold InLong at ht htimeout hnow
  unfold Wraps addLong
  rw [Int.bmod_def]
  split <;> omega

/-- The sum with the hard timeout only wraps below. -/
theorem hardExpired_of_wraps {conn : Connection W} {now : Int} (ht : InLong conn.tmAccessed)
    (h : Wraps conn.tmAccessed hardTimeout now) : hardExpired conn now = true := by
  unfold InLong at ht
  unfold Wraps hardTimeout at h
  rw [hardExpired, decide_eq_true_iff]
  unfold addLong hardTimeout
  rw [Int.bmod_def]
  split <;> omega

theorem inLong_timeout (timeout : Int64) : InLong timeout.toInt :=
  ⟨timeout.le_toInt, timeout.toInt_lt⟩

theorem inLong_hardTimeout : InLong hardTimeout := by
  unfold InLong hardTimeout
  omega

/-! ## One slot -/

/-- An occupied record is freed if its worker is dead or a comparison says so. -/
theorem reapConnection_pid_none_iff {alive : W → Bool} {now : Int} {conn : Connection W}
    (hpid : conn.pid ≠ none) :
    (reapConnection alive now conn).1.pid = none ↔
      orphaned alive conn = true ∨ hardExpired conn now = true ∨
        conn.inUse = 0 ∧ idleExpired conn now = true := by
  have hzero : ∀ c : Connection W, (dbZeroConnection c).pid = none := fun _ => rfl
  have hsome : conn.pid.isNone = false := by
    rw [Option.isNone_eq_false_iff, Option.isSome_iff_ne_none]
    exact hpid
  rw [reapConnection]
  cases horphaned : orphaned alive conn with
  | true => simp [hzero]
  | false =>
    simp only [Bool.false_eq_true, if_false, hsome, false_or]
    cases hhard : hardExpired conn now with
    | true => simp [dbCloseConnection, hzero]
    | false =>
      simp only [Bool.false_eq_true, if_false, false_or]
      by_cases hinUse : conn.inUse = 0
      · cases hidle : idleExpired conn now with
        | true => simp [hinUse, dbCloseConnection, hzero]
        | false => simp [hpid]
      · simp [hinUse, hpid]

/-- Two comparisons may differ: the first if the other pair decides, the second if the first
one decides. -/
theorem or_and_congr_iff {a a' b b' u wa wb : Prop} (ha : wa ↔ ¬(a ↔ a'))
    (hb : wb ↔ ¬(b ↔ b')) (habove : wa → a) :
    ((a ∨ u ∧ b) ↔ (a' ∨ u ∧ b')) ↔ (wa → u ∧ b') ∧ (wb → u → a) := by
  grind

/-- The comparisons of an occupied record of a live worker, or of a named one, agree with the
exact ones. -/
theorem expired_iff {alive : W → Bool} {now : Int} {conn : Connection W} (hpid : conn.pid ≠ none)
    (horphaned : orphaned alive conn = false) (ht : InLong conn.tmAccessed) (hnow : InLong now) :
    ((reapConnection alive now conn).1.pid = none ↔ Expired alive now conn) ↔
      WrapsHarmlessly now conn := by
  have hhard := wraps_iff ht inLong_hardTimeout hnow
  have hidle := wraps_iff ht (inLong_timeout conn.connectionTimeout) hnow
  have habove : Wraps conn.tmAccessed hardTimeout now → hardExpired conn now = true :=
    hardExpired_of_wraps ht
  have hhardExpired : hardExpired conn now = true ↔ addLong conn.tmAccessed hardTimeout < now :=
    decide_eq_true_iff
  have hidleExpired : idleExpired conn now = true ↔
      addLong conn.tmAccessed conn.connectionTimeout.toInt < now := decide_eq_true_iff
  rw [reapConnection_pid_none_iff hpid, Expired, WrapsHarmlessly, horphaned]
  simp only [Bool.false_eq_true, false_or]
  rw [hidleExpired]
  rw [hhardExpired] at habove ⊢
  exact or_and_congr_iff hhard hidle habove

/-! ## The table -/

/-- The reaper frees exactly the expired slots if and only if each sum that wraps is
harmless. -/
theorem reapsExpired_iff [DecidableEq W] {s : State W} {w : W} {now : Int} (hnow : InLong now)
    (ht : ∀ i, InLong (s.connections i).tmAccessed) :
    ReapsExpired s w now ↔
      ∀ i, (s.connections i).pid ≠ none → orphaned s.alive (s.connections i) = false →
        WrapsHarmlessly now (s.connections i) := by
  have hrecord : ∀ i, (s.reapAll w now).connections i =
      (reapConnection s.alive now (s.connections i)).1 := fun _ => rfl
  constructor
  · intro h i hpid horphaned
    rw [← expired_iff hpid horphaned (ht i) hnow]
    constructor
    · intro hfreed
      by_contra hnot
      have hsame := (h i).2 fun hboth => hnot hboth.2
      rw [hrecord] at hsame
      rw [hsame] at hfreed
      exact hpid hfreed
    · exact (h i).1 hpid
  · intro h i
    have hslot : (s.connections i).pid ≠ none →
        ((reapConnection s.alive now (s.connections i)).1.pid = none ↔
          Expired s.alive now (s.connections i)) := by
      intro hpid
      cases horphaned : orphaned s.alive (s.connections i) with
      | true =>
        exact iff_of_true ((reapConnection_pid_none_iff hpid).2 (.inl horphaned)) (.inl horphaned)
      | false => exact (expired_iff hpid horphaned (ht i) hnow).2 (h i hpid horphaned)
    rw [hrecord]
    refine ⟨fun hpid => (hslot hpid).2, fun hnot => ?_⟩
    by_cases hpid : (s.connections i).pid = none
    · have horphaned : orphaned s.alive (s.connections i) = false := by
        rw [orphaned, hpid]
      rw [reapConnection]
      simp [horphaned, hpid]
    · refine congrArg Prod.fst (reapConnection_of_pid fun hfreed => ?_)
      exact hnot ⟨hpid, (hslot hpid).1 hfreed⟩

/-- An idle named connection that was accessed at the time 1700000000. -/
def idleConnection (timeout : Int64) : Connection Unit :=
  (dbFreeConnection (dbPopulateConnection
    { poolRequest alice with connectionTimeout := timeout }
    none (some firstPath) 1700000000 ()).2).1

def idleTable (timeout : Int64) : State Unit :=
  { initial 1700000000 with connections := fun _ => idleConnection timeout }

theorem reapsExpired_minute : ReapsExpired (idleTable 60) () 1700000061 := by
  have haccessed : (idleConnection 60).tmAccessed = 1700000000 := by decide +kernel
  have htimeout : (idleConnection 60).connectionTimeout.toInt = 60 := by decide +kernel
  refine (reapsExpired_iff (by unfold InLong; omega) fun i => ?_).2 fun i _ _ => ?_
  · show InLong (idleConnection 60).tmAccessed
    rw [haccessed]
    unfold InLong
    omega
  · show WrapsHarmlessly _ (idleConnection 60)
    rw [WrapsHarmlessly, haccessed, htimeout]
    unfold Wraps hardTimeout
    omega

/-- The largest timeout of a request: the connection is freed in the second of its last
access. -/
theorem not_reapsExpired_largeTimeout :
    ¬ReapsExpired (idleTable (.ofInt (Decimal.atol (ascii "9223372036854775807")))) ()
      1700000000 := by
  obtain ⟨timeout, htimeout⟩ :
      ∃ timeout, Int64.ofInt (Decimal.atol (ascii "9223372036854775807")) = timeout := ⟨_, rfl⟩
  have hused : (idleConnection timeout).pid = some () := by
    rw [← htimeout]
    decide +kernel
  have hnamed : orphaned (idleTable timeout).alive (idleConnection timeout) = false := by
    rw [← htimeout]
    decide +kernel
  have haccessed : (idleConnection timeout).tmAccessed = 1700000000 := by
    rw [← htimeout]
    decide +kernel
  have hstored : (idleConnection timeout).connectionTimeout.toInt = 9223372036854775807 := by
    rw [← htimeout]
    decide +kernel
  have hfreed : (reapConnection (idleTable timeout).alive 1700000000
      (idleConnection timeout)).1.pid = none := by
    rw [← htimeout]
    decide +kernel
  rw [htimeout]
  intro h
  have hsame : (reapConnection (idleTable timeout).alive 1700000000
      (idleConnection timeout)).1 = idleConnection timeout := by
    refine (h ⟨0, by decide⟩).2 fun hboth => ?_
    rcases hboth.2 with horphaned | hhard | hidle
    · exact absurd (hnamed.symm.trans horphaned) Bool.false_ne_true
    · have hlt : hardTimeout < 1700000000 - (idleConnection timeout).tmAccessed := hhard
      rw [haccessed] at hlt
      exact absurd hlt (by decide)
    · have hlt : (idleConnection timeout).connectionTimeout.toInt <
          1700000000 - (idleConnection timeout).tmAccessed := hidle.2
      rw [haccessed, hstored] at hlt
      exact absurd hlt (by decide)
  rw [hsame, hused] at hfreed
  cases hfreed

end DbRelay.Pool

/-!
Heartbeats from the pipeline, and the readiness answer that is computed from
them. A clock reading is a number of nanoseconds since the epoch, and it may be
negative. The source cuts a reading to whole seconds, and it reads a clock before
the epoch as zero.
-/

namespace ShadeIndexer.Bin

structure Liveness where
  lastEventUnix : Nat
  kafkaConnected : Bool
  postgresConnected : Bool
  deriving DecidableEq, Repr

def NANOS_PER_SEC : Int := 1000000000

/-- `now().duration_since(UNIX_EPOCH).map(|d| d.as_secs()).unwrap_or_default()` -/
def unixSeconds (clock : Int) : Nat := (clock / NANOS_PER_SEC).toNat

namespace Liveness

def new : Liveness := ⟨0, false, false⟩

def markEvent (l : Liveness) (clock : Int) : Liveness :=
  { l with lastEventUnix := unixSeconds clock }

def setKafka (l : Liveness) (ok : Bool) : Liveness := { l with kafkaConnected := ok }

def setPostgres (l : Liveness) (ok : Bool) : Liveness := { l with postgresConnected := ok }

end Liveness

structure ReadyResponse where
  ready : Bool
  lastEventUnix : Nat
  secondsSinceEvent : Nat
  kafkaConnected : Bool
  postgresConnected : Bool
  deriving DecidableEq, Repr

def STALE_THRESHOLD : Nat := 300

/-- The subtraction saturates, as it does in the source. -/
def readyz (l : Liveness) (clock : Int) : Nat × ReadyResponse :=
  let now := unixSeconds clock
  let stale := l.lastEventUnix == 0 || decide (STALE_THRESHOLD < now - l.lastEventUnix)
  let ready := l.kafkaConnected && l.postgresConnected && !stale
  let body :=
    { ready
      lastEventUnix := l.lastEventUnix
      secondsSinceEvent := now - l.lastEventUnix
      kafkaConnected := l.kafkaConnected
      postgresConnected := l.postgresConnected }
  (if ready then 200 else 503, body)

/-- The answer is positive exactly if both flags are set and an event was
marked within the threshold. -/
theorem readyz_ready_iff (l : Liveness) (clock : Int) :
    (readyz l clock).2.ready = true ↔
      l.kafkaConnected = true ∧ l.postgresConnected = true ∧ l.lastEventUnix ≠ 0 ∧
        unixSeconds clock ≤ l.lastEventUnix + STALE_THRESHOLD := by
  simp only [readyz, Bool.and_eq_true, Bool.not_eq_true', Bool.or_eq_false_iff,
    beq_eq_false_iff_ne, decide_eq_false_iff_not]
  constructor
  · rintro ⟨⟨hkafka, hpostgres⟩, hmarked, hfresh⟩
    exact ⟨hkafka, hpostgres, hmarked, by omega⟩
  · rintro ⟨hkafka, hpostgres, hmarked, hfresh⟩
    exact ⟨⟨hkafka, hpostgres⟩, hmarked, by omega⟩

end ShadeIndexer.Bin

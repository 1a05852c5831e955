import ShadeIndexer.Bin.Commands
import ShadeIndexer.Bin.Config
import ShadeIndexer.Lib.Text

/-!
The `inspect-config` command, which prints the configuration with the
credentials of the database taken out. They are found by the first `@` behind
the scheme. A user name or a password may hold an `@` of its own.
-/

namespace ShadeIndexer.Bin.InspectConfig

open ShadeIndexer.Core Lib.Text

structure FactorySummary where
  launchpad : String
  address : String
  eventTopic : String
  deriving DecidableEq, Repr

structure Inspection where
  configPath : String
  rpcWsUrl : String
  rpcHttpUrl : Option String
  kafkaBrokers : String
  kafkaTransactionalId : String
  postgresUrlRedacted : String
  metricsBind : String
  factories : List FactorySummary
  deriving DecidableEq, Repr

/-- `redact_url`, on the characters of the text. -/
def redactChars (url : List Char) : List Char :=
  match splitOnce "://".toList url with
  | some (scheme, rest) =>
    match rest.findIdx? fun c => decide (c = '@') with
    | some pos => scheme ++ ("://***:***@".toList ++ rest.drop (pos + 1))
    | none => url
  | none => url

/-- Strip credentials from a postgres URL for safe display. -/
def redactUrl (url : String) : String := String.ofList (redactChars url.toList)

def summary (s : FactorySpec) : FactorySummary where
  launchpad := s.launchpad.asStr
  address := "0x" ++ Lib.Hex.encode s.address.bytes
  eventTopic := "0x" ++ Lib.Hex.encode s.eventTopic.bytes

def inspection (configPath : String) (cfg : Config.AppConfig) (registry : FactoryRegistry) :
    Inspection where
  configPath := configPath
  rpcWsUrl := cfg.rpc.wsUrl
  rpcHttpUrl := cfg.rpc.httpUrl
  kafkaBrokers := cfg.kafka.brokers
  kafkaTransactionalId := cfg.kafka.transactionalId
  postgresUrlRedacted := redactUrl cfg.postgres.url
  metricsBind := cfg.metrics.bind
  factories := registry.byLaunchpad.entries.map fun entry => summary entry.2

/-- The value that the command prints as JSON. -/
def run (load : Except CommandError Config.AppConfig)
    (fromTomlPath : String → Except IndexerError FactoryRegistry) (configPath : String) :
    Except CommandError Inspection := do
  let cfg ← load
  let registry ← withContext ("factories: " ++ cfg.factories)
    ((fromTomlPath cfg.factories).mapError .indexer)
  pure (inspection configPath cfg registry)

/-- `{scheme}://{userinfo}@{rest}` -/
def urlWith (scheme userinfo rest : String) : String :=
  scheme ++ "://" ++ userinfo ++ "@" ++ rest

theorem unbordered_schemeEnd : Unbordered "://".toList := by decide

/-- With credentials in front of an `@`, the text is cut behind the first `@`. -/
theorem redactChars_of_userinfo (scheme userinfo rest : List Char)
    (hscheme : ¬ "://".toList <:+: scheme) :
    ∃ shown, afterFirst '@' (userinfo ++ '@' :: rest) = some shown ∧
      redactChars (scheme ++ ("://".toList ++ (userinfo ++ '@' :: rest))) =
        scheme ++ ("://***:***@".toList ++ shown) := by
  have hsplit := splitOnce_append unbordered_schemeEnd scheme (userinfo ++ '@' :: rest) hscheme
  have hfirst := afterFirst_append_cons '@' userinfo rest
  refine ⟨_, hfirst, ?_⟩
  rw [← drop_findIdx, Option.map_eq_some_iff] at hfirst
  obtain ⟨pos, hpos, hshown⟩ := hfirst
  rw [redactChars, hsplit]
  dsimp only
  rw [hpos]
  dsimp only
  rw [hshown]

theorem toList_urlWith (scheme userinfo rest : String) :
    (urlWith scheme userinfo rest).toList =
      scheme.toList ++ ("://".toList ++ (userinfo.toList ++ '@' :: rest.toList)) := by
  simp only [urlWith, String.toList_append, List.append_assoc]
  rfl

theorem redactUrl_eq_iff (scheme user₁ user₂ rest : String)
    (hscheme : ¬ "://".toList <:+: scheme.toList) :
    redactUrl (urlWith scheme user₁ rest) = redactUrl (urlWith scheme user₂ rest) ↔
      afterFirst '@' user₁.toList = afterFirst '@' user₂.toList := by
  obtain ⟨shown₁, hshown₁, hredact₁⟩ :=
    redactChars_of_userinfo scheme.toList user₁.toList rest.toList hscheme
  obtain ⟨shown₂, hshown₂, hredact₂⟩ :=
    redactChars_of_userinfo scheme.toList user₂.toList rest.toList hscheme
  rw [redactUrl, redactUrl, toList_urlWith, toList_urlWith, hredact₁, hredact₂,
    ← afterFirst_append_cons_inj '@' user₁.toList user₂.toList rest.toList, hshown₁, hshown₂,
    String.ofList_inj, List.append_cancel_left_eq, List.append_cancel_left_eq, Option.some.injEq]

/-- What `inspect-config` prints of two databases that differ in their
credentials alone is the same exactly if the same follows the first `@` of the
credentials, or neither holds an `@`. -/
theorem inspection_hides_userinfo_iff (configPath : String) (cfg : Config.AppConfig)
    (registry : FactoryRegistry) (scheme user₁ user₂ rest : String)
    (hscheme : ¬ "://".toList <:+: scheme.toList) :
    (redactUrl (urlWith scheme user₁ rest) = redactUrl (urlWith scheme user₂ rest) ↔
        afterFirst '@' user₁.toList = afterFirst '@' user₂.toList) ∧
      (inspection configPath (cfg.withPostgresUrl (urlWith scheme user₁ rest)) registry =
          inspection configPath (cfg.withPostgresUrl (urlWith scheme user₂ rest)) registry ↔
        afterFirst '@' user₁.toList = afterFirst '@' user₂.toList) := by
  have hredact := redactUrl_eq_iff scheme user₁ user₂ rest hscheme
  refine ⟨hredact, ?_⟩
  rw [← hredact]
  constructor
  · intro h
    exact congrArg Inspection.postgresUrlRedacted h
  · intro h
    simp only [inspection, Config.AppConfig.withPostgresUrl, h]

/-- Two passwords without an `@` print alike, and one with an `@` does not. -/
theorem inspection_hides_userinfo_iff_passwords :
    redactUrl (urlWith "postgres" "shade:one" "db/shade") =
        redactUrl (urlWith "postgres" "shade:two" "db/shade") ∧
      inspection "shade.toml" (Config.shipped.withPostgresUrl
          (urlWith "postgres" "shade:one" "db/shade")) .empty ≠
        inspection "shade.toml" (Config.shipped.withPostgresUrl
          (urlWith "postgres" "shade:p@ss" "db/shade")) .empty := by
  constructor
  · exact (inspection_hides_userinfo_iff "shade.toml" Config.shipped .empty "postgres" "shade:one"
      "shade:two" "db/shade" (by decide)).1.mpr (by decide)
  · intro h
    have hsame := (inspection_hides_userinfo_iff "shade.toml" Config.shipped .empty "postgres"
      "shade:one" "shade:p@ss" "db/shade" (by decide)).2.mp h
    exact absurd hsame (by decide)

/-- The characters that end the authority of a URL. -/
def endsAuthority (c : Char) : Bool := c = '/' || c = '?' || c = '#'

def authority (rest : String) : List Char := rest.toList.takeWhile fun c => !endsAuthority c

/-- The end of a password with an `@` in it is printed. -/
theorem password_with_at_is_shown :
    ¬ ∀ scheme user₁ user₂ rest : String, ¬ "://".toList <:+: scheme.toList →
      '@' ∉ authority rest → user₁.toList.any endsAuthority = false →
        user₂.toList.any endsAuthority = false →
          redactUrl (urlWith scheme user₁ rest) = redactUrl (urlWith scheme user₂ rest) := by
  intro h
  have hsame := h "postgres" "shade:pass" "shade:p@ss" "db/shade" (by decide) (by decide)
    (by decide) (by decide)
  have hshown := (redactUrl_eq_iff "postgres" "shade:pass" "shade:p@ss" "db/shade"
    (by decide)).mp hsame
  exact absurd hshown (by decide)

end ShadeIndexer.Bin.InspectConfig

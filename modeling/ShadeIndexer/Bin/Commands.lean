import ShadeIndexer.Bin.Config
import ShadeIndexer.Core.Decode
import ShadeIndexer.Core.Registry

/-!
What the one-shot commands share: the configuration they load first, the
errors they end in and the JSON they print. Reading files and parsing TOML and
URLs belong to other crates, so a run is given their outcomes.
-/

namespace ShadeIndexer.Bin

open ShadeIndexer.Core

/-- `anyhow::Error`, as its chain of contexts. -/
inductive CommandError where
  | message (text : String)
  | external (text : String)
  | indexer (e : IndexerError)
  | context (text : String) (source : CommandError)
  deriving DecidableEq, Repr

/-- `with_context`. -/
def withContext {α : Type} (text : String) (x : Except CommandError α) :
    Except CommandError α :=
  x.mapError (.context text)

/-- The outcomes that the first lines of a command depend on. -/
structure Setup where
  load : Except CommandError Config.AppConfig
  /-- `url::Url::parse`, reduced to whether it accepts the text. -/
  parseUrl : String → Except CommandError Unit
  fromTomlPath : String → Except IndexerError FactoryRegistry

/-- The lines that every command which talks to a node begins with. -/
def Setup.registry (setup : Setup) (missingUrl : String) :
    Except CommandError FactoryRegistry := do
  let cfg ← setup.load
  match cfg.rpc.httpUrl with
  | none => throw (.message missingUrl)
  | some httpUrl =>
    withContext "http_url" (setup.parseUrl httpUrl)
    withContext ("factories: " ++ cfg.factories)
      ((setup.fromTomlPath cfg.factories).mapError .indexer)

inductive JsonStyle where
  | compact
  | pretty
  deriving DecidableEq, Repr

/-- A deploy on standard output, as `serde_json` renders it in the given style.
The schema has no map whose keys are not strings, so rendering cannot fail. -/
structure Printed where
  style : JsonStyle
  deploy : NormalizedDeploy

end ShadeIndexer.Bin

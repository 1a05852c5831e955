import ShadeIndexer.Bin.Commands
import ShadeIndexer.Bin.Config
import ShadeIndexer.Bytecode.Signatures
import ShadeIndexer.Lib.Net

/-!
How `serve` comes up: the metrics exporter, the pipeline, and behind both the
health server. Without an argument the address of the health server is derived
from that of the exporter, by writing its IP address and the next port.
-/

namespace ShadeIndexer.Bin.Serve

open ShadeIndexer.Core Lib.Net

structure Args where
  healthBind : Option String
  deriving DecidableEq, Repr

/-- The enrichment source that the pipeline is launched with. -/
inductive Source where
  | stub
  | rpc (httpUrl : String) (signatures : Bytecode.SignatureSet)

/-- The outcomes of what `serve` calls. -/
structure Services where
  load : Except CommandError Config.AppConfig
  installExporter : SocketAddr → Except CommandError Unit
  fromTomlPath : String → Except IndexerError FactoryRegistry
  signatureFile : String → Except CommandError Bytecode.SignatureSet
  rpcSource : String → Except CommandError Unit
  launch : Config.AppConfig → FactoryRegistry → Source → Except CommandError Unit

/-- `str::parse::<SocketAddr>` with a context. -/
def parseAddr (context text : String) : Except CommandError SocketAddr :=
  withContext context <|
    match parse text with
    | some addr => .ok addr
    | none => .error (.external "invalid socket address syntax")

def defaultHealthBind (metricsBind : String) : String :=
  match parse metricsBind with
  | some addr => ipColonPort addr.ip (addr.port + 1)
  | none => "0.0.0.0:9091"

def installMetricsExporter (svc : Services) (bind : String) : Except CommandError Unit := do
  let addr ← parseAddr "metrics.bind" bind
  withContext "metrics exporter" (svc.installExporter addr)

def selectSource (svc : Services) (cfg : Config.AppConfig) : Except CommandError Source :=
  if cfg.enrichment.disable then .ok .stub
  else
    match cfg.rpc.httpUrl with
    | none => .ok .stub
    | some httpUrl => do
      let signatures ← match cfg.enrichment.bytecodeSignatures with
        | some p => withContext ("loading bytecode signatures from " ++ p) (svc.signatureFile p)
        | none => .ok .builtin
      withContext "rpc source init" (svc.rpcSource httpUrl)
      pure (.rpc httpUrl signatures)

/-- The part of `run` up to the launch of the pipeline. -/
def launchPipeline (svc : Services) : Except CommandError Config.AppConfig := do
  let cfg ← svc.load
  installMetricsExporter svc cfg.metrics.bind
  let registry ← withContext ("factories: " ++ cfg.factories)
    ((svc.fromTomlPath cfg.factories).mapError .indexer)
  let source ← selectSource svc cfg
  svc.launch cfg registry source
  pure cfg

def healthAddr (args : Args) (cfg : Config.AppConfig) : Except CommandError SocketAddr :=
  parseAddr "health_bind" (args.healthBind.getD (defaultHealthBind cfg.metrics.bind))

/-- `run` up to the health server, with the address that this listens on. -/
def run (svc : Services) (args : Args) : Except CommandError SocketAddr := do
  let cfg ← launchPipeline svc
  healthAddr args cfg

/-- The text parses as an address with the same IP address and the next port. -/
def Follows (addr : SocketAddr) (text : String) : Prop :=
  ∃ derived, parse text = some derived ∧ derived.ip = addr.ip ∧
    derived.port.toNat = (addr.port.toNat + 1) % 2 ^ 16

theorem parse_defaultHealthBind_v4 (bind : String) (ip : Ipv4Addr) (port : UInt16)
    (hbind : parse bind = some (.v4 ip port)) :
    parse (defaultHealthBind bind) = some (.v4 ip (port + 1)) := by
  rw [defaultHealthBind, hbind]
  exact parse_ipColonPort_v4 ip (port + 1)

theorem parse_defaultHealthBind_v6 (bind : String) (ip : Ipv6Addr) (port : UInt16)
    (flowinfo scopeId : UInt32) (hbind : parse bind = some (.v6 ip port flowinfo scopeId)) :
    parse (defaultHealthBind bind) = none := by
  rw [defaultHealthBind, hbind]
  exact parse_ipColonPort_v6 ip (port + 1)

/-- Parsing the default succeeds exactly for an IPv4 address, and then it gives
the next port of the same address. -/
theorem follows_defaultHealthBind_iff (bind : String) (addr : SocketAddr)
    (hbind : parse bind = some addr) :
    Follows addr (defaultHealthBind bind) ↔ addr.isIpv4 = true := by
  cases addr with
  | v4 ip port =>
      have hdefault := parse_defaultHealthBind_v4 bind ip port hbind
      refine iff_of_true ⟨_, hdefault, rfl, ?_⟩ rfl
      exact UInt16.toNat_add port 1
  | v6 ip port flowinfo scopeId =>
      have hdefault := parse_defaultHealthBind_v6 bind ip port flowinfo scopeId hbind
      refine iff_of_false ?_ (by simp [SocketAddr.isIpv4])
      rintro ⟨derived, hderived, -⟩
      rw [hdefault] at hderived
      cases hderived

/-- The default parses for every text but an IPv6 socket address. The default
for a text that is no address is one itself. -/
theorem parse_defaultHealthBind_iff (bind : String) :
    (∃ health, parse (defaultHealthBind bind) = some health) ↔
      ∀ addr, parse bind = some addr → addr.isIpv4 = true := by
  cases hbind : parse bind with
  | none =>
      have hdefault : parse "0.0.0.0:9091" = some (.v4 ⟨0, 0, 0, 0⟩ 9091) := by decide
      refine iff_of_true ⟨.v4 ⟨0, 0, 0, 0⟩ 9091, ?_⟩ (by simp)
      rw [defaultHealthBind, hbind]
      exact hdefault
  | some addr =>
      cases addr with
      | v4 ip port =>
          refine iff_of_true ⟨_, parse_defaultHealthBind_v4 bind ip port hbind⟩ ?_
          rintro addr ⟨⟩
          rfl
      | v6 ip port flowinfo scopeId =>
          have hdefault := parse_defaultHealthBind_v6 bind ip port flowinfo scopeId hbind
          simp [hdefault, SocketAddr.isIpv4]

theorem parseAddr_ok_iff (context text : String) :
    (∃ addr, parseAddr context text = .ok addr) ↔ ∃ addr, parse text = some addr := by
  unfold parseAddr
  cases parse text with
  | none => simp [withContext, Except.mapError]
  | some addr => simp [withContext, Except.mapError]

/-- The derived health address is usable exactly if the exporter listens on an
IPv4 address. With an IPv6 address `serve` fails behind the launch. -/
theorem derived_health_address_usable_iff (bind : String) (addr : SocketAddr)
    (hbind : parse bind = some addr) :
    (Follows addr (defaultHealthBind bind) ↔ addr.isIpv4 = true) ∧
      ∀ (svc : Services) (cfg : Config.AppConfig), launchPipeline svc = .ok cfg →
        cfg.metrics.bind = bind →
          ((∃ health, run svc ⟨none⟩ = .ok health) ↔ addr.isIpv4 = true) := by
  refine ⟨follows_defaultHealthBind_iff bind addr hbind, ?_⟩
  rintro svc cfg hlaunch rfl
  have hrun : run svc ⟨none⟩ = parseAddr "health_bind" (defaultHealthBind cfg.metrics.bind) := by
    rw [run, hlaunch]
    rfl
  rw [hrun, parseAddr_ok_iff, parse_defaultHealthBind_iff]
  simp [hbind]

/-- Every call succeeds. -/
def Services.succeeding (cfg : Config.AppConfig) : Services where
  load := .ok cfg
  installExporter := fun _ => .ok ()
  fromTomlPath := fun _ => .ok .empty
  signatureFile := fun _ => .ok .builtin
  rpcSource := fun _ => .ok ()
  launch := fun _ _ _ => .ok ()

theorem derived_health_address_usable_iff_shipped :
    Follows (.v4 ⟨0, 0, 0, 0⟩ 9090) (defaultHealthBind "0.0.0.0:9090") ∧
      ∃ health, run (.succeeding Config.shipped) ⟨none⟩ = .ok health := by
  have husable := derived_health_address_usable_iff "0.0.0.0:9090" (.v4 ⟨0, 0, 0, 0⟩ 9090)
    (by decide)
  exact ⟨husable.1.mpr rfl, (husable.2 (.succeeding Config.shipped) Config.shipped rfl rfl).mpr rfl⟩

/-- From `[::1]:9090` the health address is derived as `::1:9091`, which does not
parse. -/
theorem loopback_default_does_not_parse :
    ¬ ∀ (bind : String) (addr : SocketAddr), parse bind = some addr →
      Follows addr (defaultHealthBind bind) := by
  intro h
  have hkind : (parse "[::1]:9090").map SocketAddr.isIpv4 = some false := by decide
  obtain ⟨addr, hparse, hipv6⟩ := Option.map_eq_some_iff.mp hkind
  have hipv4 := (follows_defaultHealthBind_iff "[::1]:9090" addr hparse).mp
    (h "[::1]:9090" addr hparse)
  rw [hipv6] at hipv4
  cases hipv4

end ShadeIndexer.Bin.Serve

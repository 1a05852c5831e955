import ShadeIndexer.Enrich.RpcSource

/-!
What a fetch may learn from its provider. It depends on the answers to a few
requests, of which only the last is chosen by an earlier answer: the liquidity is
asked of the pool that was found.
-/

namespace ShadeIndexer.Enrich

open ShadeIndexer.Core Lib Lib.Rust Lib.Accumulator

/-- A request to the provider. -/
inductive Query where
  | codeAt (address : Address)
  | call (target : Address) (data : SolCall)
  | logs (filter : Filter)
  deriving DecidableEq

/-- The contract that a request is about. -/
def Query.target : Query → Address
  | .codeAt address => address
  | .call target _ => target
  | .logs filter => filter.address

/-- Two providers answer a request alike. -/
def Provider.AgreeOn (p p' : Provider) : Query → Prop
  | .codeAt address => p.getCodeAt address = p'.getCodeAt address
  | .call target data => p.call target data = p'.call target data
  | .logs filter => p.getLogs filter = p'.getLogs filter

namespace RpcEnrichmentSource

def withProvider (src : RpcEnrichmentSource) (provider : Provider) : RpcEnrichmentSource :=
  { src with provider := provider }

variable {src : RpcEnrichmentSource} {other : Provider}

theorem fetchBytecodeFlags_congr {token : Address}
    (h : src.provider.AgreeOn other (.codeAt token)) :
    (src.withProvider other).fetchBytecodeFlags token = src.fetchBytecodeFlags token := by
  have hcode : other.getCodeAt token = src.provider.getCodeAt token := h.symm
  unfold fetchBytecodeFlags withProvider
  dsimp only
  rw [hcode]

theorem ethCall_congr {target : Address} {data : SolCall}
    (h : src.provider.AgreeOn other (.call target data)) :
    (src.withProvider other).ethCall target data = src.ethCall target data := h.symm

theorem fetchTotalSupply_congr {token : Address}
    (h : src.provider.AgreeOn other (.call token .totalSupply)) :
    (src.withProvider other).fetchTotalSupply token = src.fetchTotalSupply token := by
  unfold fetchTotalSupply
  rw [ethCall_congr h]

theorem fetchPoolLiquidity_congr {pool : Address}
    (h : src.provider.AgreeOn other (.call pool .liquidity)) :
    (src.withProvider other).fetchPoolLiquidity pool = src.fetchPoolLiquidity pool := by
  unfold fetchPoolLiquidity
  rw [ethCall_congr h]

/-- The request for the pool of a fee tier. -/
def poolQuery (token : Address) (fee : Nat) : Query :=
  .call UNI_V3_FACTORY_BASE (.getPool token WETH_BASE fee)

theorem probeTiers_congr {token : Address} {tiers : List Nat}
    (h : ∀ fee ∈ tiers, src.provider.AgreeOn other (poolQuery token fee)) :
    (src.withProvider other).probeTiers token tiers = src.probeTiers token tiers := by
  induction tiers with
  | nil => rfl
  | cons fee rest ih =>
      have hhead := ethCall_congr (h fee (List.mem_cons_self ..))
      have htail := ih fun fee hfee => h fee (List.mem_cons_of_mem _ hfee)
      rw [probeTiers, probeTiers, hhead, htail]

theorem fetchHolderBalances_congr {token : Address} {fromBlock : UInt64}
    (h : src.provider.AgreeOn other (.logs (src.holderFilter token fromBlock))) :
    (src.withProvider other).fetchHolderBalances token fromBlock =
      src.fetchHolderBalances token fromBlock := by
  have hlogs : other.getLogs (src.holderFilter token fromBlock) =
      src.provider.getLogs (src.holderFilter token fromBlock) := h.symm
  have hfilter : (src.withProvider other).holderFilter token fromBlock =
      src.holderFilter token fromBlock := rfl
  unfold fetchHolderBalances
  rw [hfilter]
  dsimp only [withProvider]
  rw [hlogs]

/-- The pool that is found, if one is. -/
def pool? (src : RpcEnrichmentSource) (token : Address) : Option Address :=
  match src.findUniV3Pool token with
  | .ok pool => pool
  | .error _ => none

/-- The requests whose answers decide a fetch. -/
def queries (src : RpcEnrichmentSource) (deploy : NormalizedDeploy) : List Query :=
  [.codeAt deploy.token, .call deploy.token .totalSupply,
    .logs (src.holderFilter deploy.token deploy.blockNumber)] ++
  feeTiers.map (poolQuery deploy.token) ++
  (src.pool? deploy.token).toList.map fun pool => .call pool .liquidity

theorem length_queries (src : RpcEnrichmentSource) (deploy : NormalizedDeploy) :
    (src.queries deploy).length ≤ 7 := by
  unfold queries
  cases src.pool? deploy.token with
  | none =>
      change 6 ≤ 7
      decide
  | some pool => exact Nat.le_refl 7

/-- Every request is about the token, the factory or the pool. -/
theorem target_of_mem_queries {src : RpcEnrichmentSource} {deploy : NormalizedDeploy} {q : Query}
    (h : q ∈ src.queries deploy) :
    q.target = deploy.token ∨ q.target = UNI_V3_FACTORY_BASE ∨
      src.findUniV3Pool deploy.token = .ok (some q.target) := by
  rcases List.mem_append.mp h with hfixed | hpool
  · rcases List.mem_append.mp hfixed with htoken | htier
    · simp only [List.mem_cons, List.not_mem_nil, or_false] at htoken
      rcases htoken with rfl | rfl | rfl
      · exact Or.inl rfl
      · exact Or.inl rfl
      · exact Or.inl rfl
    · obtain ⟨fee, -, rfl⟩ := List.mem_map.mp htier
      exact Or.inr (Or.inl rfl)
  · obtain ⟨pool, hfound, rfl⟩ := List.mem_map.mp hpool
    refine Or.inr (Or.inr ?_)
    rw [Option.mem_toList, pool?] at hfound
    cases hfind : src.findUniV3Pool deploy.token with
    | error fault =>
        rw [hfind] at hfound
        cases hfound
    | ok found =>
        rw [hfind] at hfound
        exact congrArg Except.ok hfound

/-- A fetch is decided by the answers to at most seven requests, about the token,
the factory and the pool that the factory names. A provider that answers these
alike leads to the same snapshot, error or panic. -/
theorem fetch_asks_little (src : RpcEnrichmentSource) (deploy : NormalizedDeploy) :
    ∃ qs : List Query, qs.length ≤ 7 ∧
      (∀ q ∈ qs, q.target = deploy.token ∨ q.target = UNI_V3_FACTORY_BASE ∨
        src.findUniV3Pool deploy.token = .ok (some q.target)) ∧
      ∀ other : Provider, (∀ q ∈ qs, src.provider.AgreeOn other q) →
        (src.withProvider other).fetch deploy = src.fetch deploy := by
  refine ⟨src.queries deploy, length_queries src deploy, fun q => target_of_mem_queries, ?_⟩
  intro other hagree
  have hfixed (q : Query) (hq : q ∈ [Query.codeAt deploy.token, .call deploy.token .totalSupply,
      .logs (src.holderFilter deploy.token deploy.blockNumber)]) : src.provider.AgreeOn other q :=
    hagree q (List.mem_append_left _ (List.mem_append_left _ hq))
  have hcode := fetchBytecodeFlags_congr (hfixed (.codeAt deploy.token) (by simp))
  have hsupply := fetchTotalSupply_congr (hfixed (.call deploy.token .totalSupply) (by simp))
  have hlogs := fetchHolderBalances_congr
    (hfixed (.logs (src.holderFilter deploy.token deploy.blockNumber)) (by simp))
  have hpool : (src.withProvider other).findUniV3Pool deploy.token =
      src.findUniV3Pool deploy.token := by
    apply probeTiers_congr
    intro fee hfee
    apply hagree
    exact List.mem_append_left _ (List.mem_append_right _ (List.mem_map_of_mem hfee))
  unfold fetch
  rw [hcode, hsupply, hlogs, hpool]
  cases hfind : src.findUniV3Pool deploy.token with
  | error fault => rfl
  | ok pool =>
      cases pool with
      | none => rfl
      | some pool =>
          have hquery : Query.call pool .liquidity ∈ src.queries deploy := by
            apply List.mem_append_right
            rw [pool?, hfind]
            exact List.mem_singleton_self _
          have hliquidity := fetchPoolLiquidity_congr (hagree _ hquery)
          dsimp only [bind, Except.bind]
          rw [hliquidity]
          rfl

end RpcEnrichmentSource

end ShadeIndexer.Enrich

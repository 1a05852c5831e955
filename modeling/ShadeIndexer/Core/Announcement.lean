import ShadeIndexer.Core.Subscriber

/-!
What a log must be to announce a deploy: every field of the deploy can be read
off the log, and the launchpad off the registry.
-/

namespace ShadeIndexer.Core

open Lib.Rust

/-- The deploy is read off the log, for a factory of the registry. -/
structure Announces (reg : FactoryRegistry) (log : Log) (d : NormalizedDeploy) : Prop where
  launchpad : ∃ topic0, log.topics.head? = some topic0 ∧
    reg.matchLog log.address topic0 = some d.launchpad
  token : log.topics[1]?.map Address.fromWord = some d.token
  deployer : log.topics[2]?.map Address.fromWord = some d.deployer
  blockNumber : log.blockNumber = some d.blockNumber
  blockTimestamp : log.blockTimestamp.getD 0 = d.blockTimestamp
  txHash : log.transactionHash = some d.txHash
  logIndex : log.logIndex = some d.logIndex

theorem topicToAddress_ok {topics : List B256} {idx : Nat} {what : String} {a : Address}
    (h : topicToAddress topics idx what = .ok a) :
    topics[idx]?.map Address.fromWord = some a := by
  unfold topicToAddress at h
  cases htopic : topics[idx]? with
  | none =>
      rw [htopic] at h
      cases h
  | some t =>
      rw [htopic] at h
      exact congrArg some (Except.ok.inj h)

theorem indexedPair_ok {name : String} {topics : List B256} {token deployer : Address}
    (h : indexedPair name topics = .ok (token, deployer)) :
    topics[1]?.map Address.fromWord = some token ∧
      topics[2]?.map Address.fromWord = some deployer := by
  obtain ⟨a, htoken, h⟩ := bind_eq_ok h
  obtain ⟨b, hdeployer, h⟩ := bind_eq_ok h
  obtain ⟨rfl, rfl⟩ := Prod.mk.inj (Except.ok.inj h)
  exact ⟨topicToAddress_ok htoken, topicToAddress_ok hdeployer⟩

/-- All four layouts take the two addresses from the topics. -/
theorem decodeLayout_ok {launchpad : Launchpad} {topics : List B256} {data : Bytes}
    {out : DecodeOut} (h : decodeLayout launchpad topics data = .ok out) :
    topics[1]?.map Address.fromWord = some out.1 ∧
      topics[2]?.map Address.fromWord = some out.2.1 := by
  cases launchpad with
  | clanker =>
      obtain ⟨⟨token, deployer⟩, hpair, hrest⟩ := bind_eq_ok h
      obtain ⟨supply, -, hlast⟩ := bind_eq_ok hrest
      obtain rfl := Except.ok.inj hlast
      exact indexedPair_ok hpair
  | flaunch | bankr | zora =>
      obtain ⟨⟨token, deployer⟩, hpair, hlast⟩ := bind_eq_ok h
      obtain rfl := Except.ok.inj hlast
      exact indexedPair_ok hpair

theorem deployOf_announces {reg : FactoryRegistry} {log : Log} {d : NormalizedDeploy}
    (h : deployOf reg log = some d) : Announces reg log d := by
  obtain ⟨topic0, launchpad, htopic, hroute, hdecode⟩ := deployOf_decodes h
  obtain ⟨blockNumber, hnumber, hdecode⟩ := bind_eq_ok hdecode
  obtain ⟨txHash, htx, hdecode⟩ := bind_eq_ok hdecode
  obtain ⟨logIndex, hindex, hdecode⟩ := bind_eq_ok hdecode
  obtain ⟨⟨token, deployer, supply, raw⟩, hlayout, hlast⟩ := bind_eq_ok hdecode
  obtain rfl := Except.ok.inj hlast
  obtain ⟨htoken, hdeployer⟩ := decodeLayout_ok hlayout
  exact ⟨⟨topic0, htopic, hroute⟩, htoken, hdeployer, okOr_ok hnumber, rfl, okOr_ok htx,
    okOr_ok hindex⟩

end ShadeIndexer.Core

import ShadeIndexer.Core.Delivery
import ShadeIndexer.Core.Routing

/-!
The filter that the subscriber gives to the node. It lists the addresses and the
topics of all sections separately, so that more logs pass than are routed. None
that is routed is held back.
-/

namespace ShadeIndexer.Core

open FactoryRegistry

/-- A filter by address and by first topic. -/
structure LogFilter where
  address : List Address
  eventSignature : List B256
  deriving DecidableEq

/-- An empty list does not restrict the logs. -/
def LogFilter.matches (f : LogFilter) (log : Log) : Bool :=
  (f.address.isEmpty || f.address.contains log.address) &&
    (f.eventSignature.isEmpty || log.topics.head?.any f.eventSignature.contains)

/-- The filter that `run_once` builds. -/
def subscriptionFilter (reg : FactoryRegistry) : LogFilter where
  address := reg.allAddresses
  eventSignature := reg.allTopics

/-- The attempt, with a node that applies the filter. -/
def Attempt.filtered (f : LogFilter) (attempt : Attempt) : Attempt :=
  match attempt.outcome with
  | .established arrivals =>
      { attempt with outcome := .established (arrivals.filter fun a => f.matches a.log) }
  | _ => attempt

namespace FactoryRegistry

def specs (reg : FactoryRegistry) : List FactorySpec := reg.byLaunchpad.entries.map Sigma.snd

/-- The specs carry the launchpad that they are found under, and what they spell
is routed, if not always to themselves. -/
structure Consistent (reg : FactoryRegistry) : Prop where
  launchpad : ∀ lp spec, reg.byLaunchpad.lookup lp = some spec → spec.launchpad = lp
  routed : ∀ lp spec, reg.byLaunchpad.lookup lp = some spec →
    ∃ lp', reg.matchLog spec.address spec.eventTopic = some lp'

theorem consistent_empty : empty.Consistent := by
  constructor
  · intro lp spec h
    cases h
  · intro lp spec h
    cases h

variable {parsers : TextParsers} {reg next : FactoryRegistry}

theorem consistent_insert {lp : Launchpad} {raw : RawFactory} (hreg : reg.Consistent)
    (h : reg.insert parsers lp raw = .ok next) : next.Consistent := by
  obtain ⟨address, eventTopic, -, hrouting, hspecs⟩ := insert_ok h
  have hfound (lp' : Launchpad) (spec : FactorySpec)
      (hlookup : next.byLaunchpad.lookup lp' = some spec) :
      (lp' = lp ∧ spec = ⟨lp, address, eventTopic, raw.abiPath⟩) ∨
        reg.byLaunchpad.lookup lp' = some spec := by
    rw [hspecs] at hlookup
    rcases eq_or_ne lp' lp with rfl | hne
    · rw [AList.lookup_insert] at hlookup
      exact Or.inl ⟨rfl, (Option.some.inj hlookup).symm⟩
    · rw [AList.lookup_insert_ne hne] at hlookup
      exact Or.inr hlookup
  constructor
  · intro lp' spec hlookup
    rcases hfound lp' spec hlookup with ⟨rfl, rfl⟩ | hold
    · rfl
    · exact hreg.launchpad lp' spec hold
  · intro lp' spec hlookup
    rw [matchLog_insert hrouting]
    split
    · exact ⟨lp, rfl⟩
    · rename_i hpair
      rcases hfound lp' spec hlookup with ⟨rfl, rfl⟩ | hold
      · exact absurd rfl hpair
      · exact hreg.routed lp' spec hold

theorem consistent_foldlM {rest : List (Launchpad × Option RawFactory)} (hreg : reg.Consistent)
    (h : rest.foldlM (insertSection parsers) reg = .ok next) : next.Consistent := by
  induction rest generalizing reg with
  | nil =>
      obtain rfl := Except.ok.inj h
      exact hreg
  | cons entry rest ih =>
      rw [List.foldlM_cons] at h
      cases hstep : insertSection parsers reg entry with
      | error e =>
          rw [hstep] at h
          cases h
      | ok mid =>
          rw [hstep] at h
          obtain ⟨lp, section?⟩ := entry
          cases section? with
          | none =>
              obtain rfl := Except.ok.inj hstep
              exact ih hreg h
          | some raw => exact ih (consistent_insert hreg hstep) h

/-- What the loader accepts. -/
theorem fromTomlStr_ok {body : String} (h : fromTomlStr parsers body = .ok reg) :
    ∃ parsed, parsers.tomlFromStr body = .ok parsed ∧
      (sections parsed).foldlM (insertSection parsers) empty = .ok reg ∧
      reg.byLaunchpad.entries ≠ [] := by
  unfold fromTomlStr at h
  cases hparsed : parsers.tomlFromStr body with
  | error e =>
      rw [hparsed] at h
      cases h
  | ok parsed =>
      rw [hparsed] at h
      cases hfold : (sections parsed).foldlM (insertSection parsers) empty with
      | error e =>
          simp only [Except.mapError, hfold, bind, Except.bind] at h
          cases h
      | ok last =>
          simp only [Except.mapError, hfold, bind, Except.bind] at h
          split at h
          · cases h
          · rename_i hsome
            obtain rfl := Except.ok.inj h
            exact ⟨parsed, rfl, hfold, by simpa using hsome⟩

theorem fromTomlStr_consistent {body : String} (h : fromTomlStr parsers body = .ok reg) :
    reg.Consistent := by
  obtain ⟨parsed, -, hfold, -⟩ := fromTomlStr_ok h
  exact consistent_foldlM consistent_empty hfold

/-- Two specs of one launchpad are one. -/
theorem Consistent.spec_unique (h : reg.Consistent) {spec spec' : FactorySpec}
    (hspec : spec ∈ reg.specs) (hspec' : spec' ∈ reg.specs)
    (hlp : spec.launchpad = spec'.launchpad) : spec = spec' := by
  obtain ⟨⟨lp, _⟩, hentry, rfl⟩ := List.mem_map.mp hspec
  obtain ⟨⟨lp', _⟩, hentry', rfl⟩ := List.mem_map.mp hspec'
  have hlookup := AList.mem_lookup_iff.mpr hentry
  have hlookup' := AList.mem_lookup_iff.mpr hentry'
  have hkey := h.launchpad lp _ hlookup
  have hkey' := h.launchpad lp' _ hlookup'
  dsimp only at hlp hkey hkey'
  rw [← hkey, hlp, hkey', hlookup'] at hlookup
  exact (Option.some.inj hlookup).symm

end FactoryRegistry

variable {parsers : TextParsers} {body : String} {reg : FactoryRegistry}

/-- A log that announces a deploy passes. -/
theorem matches_of_announcing (h : fromTomlStr parsers body = .ok reg) {log : Log}
    {d : NormalizedDeploy} (hdeploy : deployOf reg log = some d) :
    (subscriptionFilter reg).matches log = true := by
  obtain ⟨parsed, hparsed, -, -⟩ := fromTomlStr_ok h
  obtain ⟨topic0, lp, htopic, hmatch, -⟩ := deployOf_decodes hdeploy
  obtain ⟨haddress, htopics⟩ := (fromTomlStr_loaded hparsed h).passes_filter
    log.address topic0 lp hmatch
  simp [LogFilter.matches, subscriptionFilter, htopic, haddress, htopics]

/-- So a filtered stream announces what the whole stream does. -/
theorem filterMap_deployOf_filter (h : fromTomlStr parsers body = .ok reg)
    (logs : List Log) :
    (logs.filter (subscriptionFilter reg).matches).filterMap (deployOf reg) =
      logs.filterMap (deployOf reg) := by
  induction logs with
  | nil => rfl
  | cons log rest ih =>
      cases hdeploy : deployOf reg log with
      | some d =>
          rw [List.filter_cons_of_pos (matches_of_announcing h hdeploy),
            List.filterMap_cons_some hdeploy, List.filterMap_cons_some hdeploy, ih]
      | none =>
          rw [List.filterMap_cons_none hdeploy, ← ih, List.filter_cons]
          split
          · exact List.filterMap_cons_none hdeploy
          · rfl

/-- The lists of an accepted registry are not empty, so that both restrict. -/
theorem specs_of_matches (h : fromTomlStr parsers body = .ok reg) {log : Log}
    (hmatches : (subscriptionFilter reg).matches log = true) :
    ∃ spec ∈ reg.specs, ∃ spec' ∈ reg.specs,
      log.address = spec.address ∧ log.topics.head? = some spec'.eventTopic := by
  obtain ⟨parsed, -, -, hentries⟩ := fromTomlStr_ok h
  simp only [LogFilter.matches, subscriptionFilter, allAddresses,
    allTopics, List.isEmpty_iff, List.map_eq_nil_iff, hentries, Bool.and_eq_true,
    Bool.or_eq_true, false_or, List.contains_iff_mem, Option.any_eq_true] at hmatches
  obtain ⟨haddress, topic0, htopic, htopics⟩ := hmatches
  obtain ⟨entry, hentry, hspec⟩ := List.mem_map.mp haddress
  obtain ⟨entry', hentry', hspec'⟩ := List.mem_map.mp htopics
  exact ⟨entry.2, List.mem_map_of_mem hentry, entry'.2, List.mem_map_of_mem hentry', hspec.symm,
    by rw [htopic, hspec']⟩

theorem drops_filtered {attempt : Attempt} (f : LogFilter) (h : attempt.drops = false) :
    (attempt.filtered f).drops = false := by
  obtain ⟨dropBefore, outcome⟩ := attempt
  cases outcome with
  | connectFailed e | subscribeFailed e => exact h
  | established arrivals =>
      rw [Attempt.drops, Bool.or_eq_false_iff] at h ⊢
      refine ⟨h.1, ?_⟩
      have hnone := List.any_eq_false.mp h.2
      apply List.any_eq_false.mpr
      intro a ha
      exact hnone a (List.mem_of_mem_filter ha)

theorem logs_filtered (f : LogFilter) (attempt : Attempt) :
    (attempt.filtered f).arrivals.map Arrival.log =
      (attempt.arrivals.map Arrival.log).filter f.matches := by
  obtain ⟨dropBefore, outcome⟩ := attempt
  cases outcome with
  | connectFailed e | subscribeFailed e => rfl
  | established arrivals =>
      rw [List.filter_map]
      rfl

/-- The filter loses nothing: over all reconnects, and while its receiver stays,
the subscriber delivers every deploy that the unfiltered streams announce. What
passes in vain is the topic of one section at the address of another. -/
theorem subscription_loses_nothing (parsers : TextParsers) (body : String)
    (reg : FactoryRegistry) (h : fromTomlStr parsers body = .ok reg) :
    (∀ attempts : List Attempt, (∀ attempt ∈ attempts, attempt.drops = false) →
      (LaunchpadSubscriber.run reg
          (attempts.map (Attempt.filtered (subscriptionFilter reg)))).out.delivered =
        (attempts.flatMap fun attempt => attempt.arrivals.map Arrival.log).filterMap
          (deployOf reg)) ∧
      ∀ log, (subscriptionFilter reg).matches log = true →
        (∃ topic0 lp, log.topics.head? = some topic0 ∧ reg.matchLog log.address topic0 = some lp) ∨
          ∃ spec ∈ reg.specs, ∃ spec' ∈ reg.specs, spec.launchpad ≠ spec'.launchpad ∧
            log.address = spec.address ∧ log.topics.head? = some spec'.eventTopic := by
  have hconsistent := fromTomlStr_consistent h
  constructor
  · intro attempts hstays
    have hfiltered : ∀ attempt ∈ attempts.map (Attempt.filtered (subscriptionFilter reg)),
        attempt.drops = false := by
      intro attempt hattempt
      obtain ⟨unfiltered, hmem, rfl⟩ := List.mem_map.mp hattempt
      exact drops_filtered _ (hstays unfiltered hmem)
    rw [run_heard, heard_undisturbed hfiltered, List.flatMap_map]
    simp only [logs_filtered]
    rw [← List.filter_flatMap, filterMap_deployOf_filter h]
  · intro log hmatches
    obtain ⟨spec, hspec, spec', hspec', haddress, htopic⟩ := specs_of_matches h hmatches
    rcases eq_or_ne spec.launchpad spec'.launchpad with hsame | hother
    · obtain rfl := hconsistent.spec_unique hspec hspec' hsame
      obtain ⟨entry, hentry, rfl⟩ := List.mem_map.mp hspec
      obtain ⟨lp, hmatch⟩ := hconsistent.routed entry.1 entry.2 (AList.mem_lookup_iff.mpr hentry)
      exact Or.inl ⟨entry.2.eventTopic, lp, htopic, haddress ▸ hmatch⟩
    · exact Or.inr ⟨spec, hspec, spec', hspec', hother, haddress, htopic⟩

/-- A launch at the placeholder address. -/
def bankrLaunch : Log :=
  { retractedLaunch with
    address := Address.ZERO
    topics := .repeatByte 32 0x33 :: retractedLaunch.topics.tail }

/-- One stream with a launch and a log of another contract, and a reconnect. -/
def mixedStream : List Attempt :=
  [⟨false, .established [.undisturbed bankrLaunch, .undisturbed retractedLaunch]⟩,
    ⟨false, .connectFailed "refused"⟩]

theorem subscription_loses_nothing_mixedStream :
    (LaunchpadSubscriber.run (placeholderRegistry (.repeatByte 32 0x22) (.repeatByte 32 0x33))
        (mixedStream.map (Attempt.filtered (subscriptionFilter
          (placeholderRegistry (.repeatByte 32 0x22) (.repeatByte 32 0x33)))))).out.delivered =
      [bankrLaunch, retractedLaunch].filterMap
        (deployOf (placeholderRegistry (.repeatByte 32 0x22) (.repeatByte 32 0x33))) := by
  obtain ⟨hdelivered, -⟩ := subscription_loses_nothing (placeholderParsers twosTopic threesTopic)
    (placeholderToml twosTopic threesTopic) _
    (placeholders_accepted _ _ _ _ twos_spelled threes_spelled)
  exact hdelivered mixedStream (by decide)

end ShadeIndexer.Core

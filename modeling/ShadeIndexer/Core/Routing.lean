import ShadeIndexer.Core.Registry

/-!
The two maps of a registry against the configuration they are loaded from. The
launchpad map and the routing map are filled by the same inserts under
different keys, and a section whose address and topic are already taken
replaces the earlier section in the routing map only.
-/

namespace ShadeIndexer.Core

/-- The address and the topic that the text of a section spells. -/
structure Spells (parsers : TextParsers) (raw : RawFactory) (address : Address)
    (eventTopic : B256) : Prop where
  address : parsers.addressFromStr (trim raw.address) = .ok address
  eventTopic : parsers.b256FromStr (trim raw.eventTopic) = .ok eventTopic

/-- Among the given sections, that of the launchpad is there and configures the
address and the topic. -/
def Listed (parsers : TextParsers) (entries : List (Launchpad × Option RawFactory))
    (lp : Launchpad) (address : Address) (eventTopic : B256) : Prop :=
  ∃ raw, (lp, some raw) ∈ entries ∧ Spells parsers raw address eventTopic

/-- The launchpad's section of the file configures the address and the topic. -/
def Configured (parsers : TextParsers) (parsed : RawFactories) (lp : Launchpad)
    (address : Address) (eventTopic : B256) : Prop :=
  Listed parsers (FactoryRegistry.sections parsed) lp address eventTopic

variable {parsers : TextParsers}

theorem Spells.unique {raw : RawFactory} {a a' : Address} {t t' : B256}
    (h : Spells parsers raw a t) (h' : Spells parsers raw a' t') : a' = a ∧ t' = t := by
  have haddress := h'.address.symm.trans h.address
  have htopic := h'.eventTopic.symm.trans h.eventTopic
  exact ⟨Except.ok.inj haddress, Except.ok.inj htopic⟩

/-- One more section lists what it spells, and nothing if it is absent. -/
theorem listed_snoc (entries : List (Launchpad × Option RawFactory))
    (entry : Launchpad × Option RawFactory) (lp : Launchpad) (a : Address) (t : B256) :
    Listed parsers (entries ++ [entry]) lp a t ↔
      Listed parsers entries lp a t ∨ ∃ raw, entry = (lp, some raw) ∧ Spells parsers raw a t := by
  constructor
  · rintro ⟨raw, hmem, hspells⟩
    rcases List.mem_append.mp hmem with hold | hnew
    · exact Or.inl ⟨raw, hold, hspells⟩
    · exact Or.inr ⟨raw, (List.mem_singleton.mp hnew).symm, hspells⟩
  · rintro (⟨raw, hmem, hspells⟩ | ⟨raw, rfl, hspells⟩)
    · exact ⟨raw, List.mem_append_left _ hmem, hspells⟩
    · exact ⟨raw, List.mem_append_right _ (List.mem_singleton_self _), hspells⟩

namespace FactoryRegistry

/-- Everything an insert does when it succeeds. -/
theorem insert_ok {reg next : FactoryRegistry} {lp : Launchpad} {raw : RawFactory}
    (h : reg.insert parsers lp raw = .ok next) :
    ∃ address eventTopic, Spells parsers raw address eventTopic ∧
      next.routing = reg.routing.insert (address, eventTopic) lp ∧
      next.byLaunchpad = reg.byLaunchpad.insert lp ⟨lp, address, eventTopic, raw.abiPath⟩ := by
  unfold FactoryRegistry.insert at h
  cases haddress : parsers.addressFromStr (trim raw.address) with
  | error e =>
      rw [haddress] at h
      cases h
  | ok address =>
      cases htopic : parsers.b256FromStr (trim raw.eventTopic) with
      | error e =>
          rw [haddress, htopic] at h
          cases h
      | ok eventTopic =>
          rw [haddress, htopic] at h
          obtain rfl := Except.ok.inj h
          exact ⟨address, eventTopic, ⟨haddress, htopic⟩, rfl, rfl⟩

theorem insert_of_spells (reg : FactoryRegistry) (lp : Launchpad) {raw : RawFactory}
    {address : Address} {eventTopic : B256} (h : Spells parsers raw address eventTopic) :
    reg.insert parsers lp raw = .ok
      ⟨reg.byLaunchpad.insert lp ⟨lp, address, eventTopic, raw.abiPath⟩,
        reg.routing.insert (address, eventTopic) lp⟩ := by
  unfold FactoryRegistry.insert
  rw [h.address, h.eventTopic]
  rfl

/-- What holds of a registry after the given sections have been visited. The
routing map knows no pair that no section lists, but a listed pair may lead to
another launchpad that lists it too. -/
structure Loaded (parsers : TextParsers) (entries : List (Launchpad × Option RawFactory))
    (reg : FactoryRegistry) : Prop where
  routed : ∀ a t lp, reg.matchLog a t = some lp → Listed parsers entries lp a t
  reached : ∀ lp a t, Listed parsers entries lp a t → ∃ lp', reg.matchLog a t = some lp'
  specified : ∀ lp a t, Listed parsers entries lp a t →
    ∃ spec, reg.byLaunchpad.lookup lp = some spec ∧ spec.address = a ∧ spec.eventTopic = t

theorem loaded_empty : Loaded parsers [] empty where
  routed := by
    intro a t lp h
    cases h
  reached := by
    rintro lp a t ⟨raw, hmem, _⟩
    cases hmem
  specified := by
    rintro lp a t ⟨raw, hmem, _⟩
    cases hmem

/-- The routing map after a successful insert. -/
theorem matchLog_insert {reg next : FactoryRegistry} {lp : Launchpad} {address : Address}
    {eventTopic : B256} (h : next.routing = reg.routing.insert (address, eventTopic) lp)
    (a : Address) (t : B256) :
    next.matchLog a t =
      if (a, t) = (address, eventTopic) then some lp else reg.matchLog a t := by
  unfold matchLog
  rw [h]
  split
  next hpair => rw [hpair, AList.lookup_insert]
  next hpair => rw [AList.lookup_insert_ne hpair]

/-- A pair that is listed with the newest section was listed before, or it is
the pair which that section spells. -/
theorem listed_newest {entries : List (Launchpad × Option RawFactory)} {lp lp' : Launchpad}
    {raw : RawFactory} {address a : Address} {eventTopic t : B256}
    (hspells : Spells parsers raw address eventTopic)
    (h : Listed parsers (entries ++ [(lp, some raw)]) lp' a t) :
    Listed parsers entries lp' a t ∨ (lp' = lp ∧ a = address ∧ t = eventTopic) := by
  rcases (listed_snoc entries _ lp' a t).mp h with hold | ⟨raw', heq, hspells'⟩
  · exact Or.inl hold
  · obtain ⟨rfl, rfl⟩ : lp = lp' ∧ raw = raw' := by simpa using heq
    exact Or.inr ⟨rfl, hspells.unique hspells'⟩

/-- Visiting a section that is absent. -/
theorem loaded_absent {entries : List (Launchpad × Option RawFactory)} {reg : FactoryRegistry}
    (hload : Loaded parsers entries reg) (lp : Launchpad) :
    Loaded parsers (entries ++ [(lp, none)]) reg := by
  have hsame : ∀ lp' a t, Listed parsers (entries ++ [(lp, none)]) lp' a t ↔
      Listed parsers entries lp' a t := by
    intro lp' a t
    rw [listed_snoc]
    simp
  exact ⟨fun a t lp' hmatch => (hsame lp' a t).mpr (hload.routed a t lp' hmatch),
    fun lp' a t hlisted => hload.reached lp' a t ((hsame lp' a t).mp hlisted),
    fun lp' a t hlisted => hload.specified lp' a t ((hsame lp' a t).mp hlisted)⟩

/-- Inserting a section, of a launchpad that had none before. -/
theorem loaded_insert {entries : List (Launchpad × Option RawFactory)}
    {reg next : FactoryRegistry} {lp : Launchpad} {raw : RawFactory}
    (hload : Loaded parsers entries reg) (hnew : lp ∉ entries.map Prod.fst)
    (h : reg.insert parsers lp raw = .ok next) :
    Loaded parsers (entries ++ [(lp, some raw)]) next := by
  obtain ⟨address, eventTopic, hspells, hrouting, hspec⟩ := insert_ok h
  have hmatchLog := matchLog_insert hrouting
  constructor
  case routed =>
    intro a t lp' hmatch
    rw [hmatchLog] at hmatch
    rw [listed_snoc]
    split at hmatch
    next hpair =>
      obtain rfl := Option.some.inj hmatch
      obtain ⟨rfl, rfl⟩ := Prod.mk.inj hpair
      exact Or.inr ⟨raw, rfl, hspells⟩
    next => exact Or.inl (hload.routed a t lp' hmatch)
  case reached =>
    intro lp' a t hlisted
    rw [hmatchLog]
    split
    next => exact ⟨lp, rfl⟩
    next hpair =>
      rcases listed_newest hspells hlisted with hold | ⟨-, rfl, rfl⟩
      · exact hload.reached lp' a t hold
      · exact absurd rfl hpair
  case specified =>
    intro lp' a t hlisted
    rw [hspec]
    rcases listed_newest hspells hlisted with ⟨raw', hmem, hspells'⟩ | ⟨rfl, rfl, rfl⟩
    · have hne : lp' ≠ lp := by
        rintro rfl
        exact hnew (List.mem_map.mpr ⟨_, hmem, rfl⟩)
      rw [AList.lookup_insert_ne hne]
      exact hload.specified lp' a t ⟨raw', hmem, hspells'⟩
    · exact ⟨_, AList.lookup_insert _, rfl, rfl⟩

/-- Visiting one more section, of a launchpad that had none before. -/
theorem loaded_insertSection {entries : List (Launchpad × Option RawFactory)}
    {reg next : FactoryRegistry} {entry : Launchpad × Option RawFactory}
    (hload : Loaded parsers entries reg) (hnew : entry.1 ∉ entries.map Prod.fst)
    (h : insertSection parsers reg entry = .ok next) :
    Loaded parsers (entries ++ [entry]) next := by
  obtain ⟨lp, section?⟩ := entry
  cases section? with
  | none =>
      obtain rfl := Except.ok.inj h
      exact loaded_absent hload lp
  | some raw => exact loaded_insert hload hnew h

/-- The loop over the sections, each of another launchpad. -/
theorem loaded_foldlM {entries rest : List (Launchpad × Option RawFactory)}
    {reg last : FactoryRegistry} (hload : Loaded parsers entries reg)
    (hkeys : ((entries ++ rest).map Prod.fst).Nodup)
    (h : rest.foldlM (insertSection parsers) reg = .ok last) :
    Loaded parsers (entries ++ rest) last := by
  induction rest generalizing entries reg with
  | nil =>
      obtain rfl := Except.ok.inj h
      rw [List.append_nil]
      exact hload
  | cons entry rest ih =>
      rw [List.foldlM_cons] at h
      cases hstep : insertSection parsers reg entry with
      | error e =>
          rw [hstep] at h
          cases h
      | ok next =>
          rw [hstep] at h
          have hsplit : entries ++ entry :: rest = (entries ++ [entry]) ++ rest := by simp
          have hnew : entry.1 ∉ entries.map Prod.fst := by
            rw [List.map_append, List.map_cons] at hkeys
            intro hmem
            exact (List.disjoint_of_nodup_append hkeys) hmem (List.mem_cons_self ..)
          rw [hsplit] at hkeys ⊢
          exact ih (loaded_insertSection hload hnew hstep) hkeys h

/-- The four sections belong to four launchpads. -/
theorem sections_nodup (parsed : RawFactories) : ((sections parsed).map Prod.fst).Nodup := by
  simp [sections]

/-- A file that is accepted has been loaded section by section. -/
theorem fromTomlStr_loaded {body : String} {parsed : RawFactories} {reg : FactoryRegistry}
    (hparsed : parsers.tomlFromStr body = .ok parsed)
    (hload : fromTomlStr parsers body = .ok reg) : Loaded parsers (sections parsed) reg := by
  unfold fromTomlStr at hload
  rw [hparsed] at hload
  cases hfold : (sections parsed).foldlM (insertSection parsers) empty with
  | error e =>
      simp only [Except.mapError, hfold, bind, Except.bind] at hload
      cases hload
  | ok last =>
      have hlast : last = reg := by
        simp only [Except.mapError, hfold, bind, Except.bind] at hload
        split at hload
        · cases hload
        · exact Except.ok.inj hload
      rw [← hlast]
      exact loaded_foldlM loaded_empty (sections_nodup parsed) hfold

/-- A log that is routed passes the filter that the provider is given. -/
theorem Loaded.passes_filter {entries : List (Launchpad × Option RawFactory)}
    {reg : FactoryRegistry} (hload : Loaded parsers entries reg) (a : Address) (t : B256)
    (lp : Launchpad) (h : reg.matchLog a t = some lp) :
    a ∈ reg.allAddresses ∧ t ∈ reg.allTopics := by
  obtain ⟨spec, hlookup, haddress, htopic⟩ := hload.specified lp a t (hload.routed a t lp h)
  have hentry : (⟨lp, spec⟩ : Sigma fun _ : Launchpad => FactorySpec) ∈
      reg.byLaunchpad.entries := AList.mem_lookup_iff.mp hlookup
  exact ⟨List.mem_map.mpr ⟨_, hentry, haddress⟩, List.mem_map.mpr ⟨_, hentry, htopic⟩⟩

/-- Routing is the configuration: the pairs of every section lead to its own
launchpad, nothing else is routed, and what is routed passes the filter. -/
structure RoutesConfiguration (parsers : TextParsers) (parsed : RawFactories)
    (reg : FactoryRegistry) : Prop where
  exact : ∀ a t lp, reg.matchLog a t = some lp ↔ Configured parsers parsed lp a t
  routable : ∀ lp a t, Configured parsers parsed lp a t → reg.matchLog a t = some lp
  filtered : ∀ a t lp, reg.matchLog a t = some lp → a ∈ reg.allAddresses ∧ t ∈ reg.allTopics

/-- No two sections have the same address and the same topic. -/
def NoSharedPair (parsers : TextParsers) (parsed : RawFactories) : Prop :=
  ∀ lp lp' a t, Configured parsers parsed lp a t → Configured parsers parsed lp' a t → lp = lp'

/-- An accepted file is routed as it is configured exactly if no two of its
sections share both address and topic. -/
theorem routesConfiguration_iff (parsers : TextParsers) (body : String) (parsed : RawFactories)
    (reg : FactoryRegistry) (hparsed : parsers.tomlFromStr body = .ok parsed)
    (haccepted : fromTomlStr parsers body = .ok reg) :
    RoutesConfiguration parsers parsed reg ↔ NoSharedPair parsers parsed := by
  have hload := fromTomlStr_loaded hparsed haccepted
  constructor
  · intro hroutes lp lp' a t hlp hlp'
    have hmatch := hroutes.routable lp a t hlp
    rw [hroutes.routable lp' a t hlp'] at hmatch
    exact (Option.some.inj hmatch).symm
  · intro hdistinct
    have hroutable : ∀ lp a t, Configured parsers parsed lp a t → reg.matchLog a t = some lp := by
      intro lp a t hlp
      obtain ⟨lp', hmatch⟩ := hload.reached lp a t hlp
      have hlp' := hload.routed a t lp' hmatch
      rw [hdistinct lp lp' a t hlp hlp', hmatch]
    exact ⟨fun a t lp => ⟨hload.routed a t lp, hroutable lp a t⟩, hroutable,
      hload.passes_filter⟩

/-- `FromStr` of the fixed-size types: hex text of exactly the size, with or
without its prefix. -/
def fixedFromStr (n : Nat) (s : String) : Except String (FixedBytes n) :=
  match Lib.Hex.decodeChars (Lib.Hex.strip0x s.toList) with
  | some bytes => if h : bytes.length = n then .ok ⟨bytes, h⟩ else .error "invalid string length"
  | none => .error "invalid hex"

/-- Parsers that know the TOML text of one file. -/
def fileParsers (file : String) (parsed : RawFactories) : TextParsers where
  tomlFromStr := fun body => if body = file then .ok parsed else .error "unknown file"
  addressFromStr := fixedFromStr 20
  b256FromStr := fixedFromStr 32

/-- A section with the placeholder address and the given topic. -/
def placeholder (eventTopic : String) : RawFactory where
  address := "0x0000000000000000000000000000000000000000"
  eventTopic := eventTopic
  abiPath := none

def twosTopic : String := "0x2222222222222222222222222222222222222222222222222222222222222222"
def threesTopic : String := "0x3333333333333333333333333333333333333333333333333333333333333333"

/-- The file of two placeholder sections. -/
def placeholderToml (flaunchTopic bankrTopic : String) : String :=
  "[flaunch]\naddress = \"0x0000000000000000000000000000000000000000\"\nevent_topic = \"" ++
    flaunchTopic ++
    "\"\n\n[bankr]\naddress = \"0x0000000000000000000000000000000000000000\"\nevent_topic = \"" ++
    bankrTopic ++ "\"\n"

/-- What the file of two placeholder sections parses to. -/
def placeholderSections (flaunchTopic bankrTopic : String) : RawFactories where
  clanker := none
  flaunch := some (placeholder flaunchTopic)
  bankr := some (placeholder bankrTopic)
  zora := none

def placeholderParsers (flaunchTopic bankrTopic : String) : TextParsers :=
  fileParsers (placeholderToml flaunchTopic bankrTopic)
    (placeholderSections flaunchTopic bankrTopic)

/-- The registry that two inserts for the placeholder address make. -/
def placeholderRegistry (flaunchTopic bankrTopic : B256) : FactoryRegistry where
  byLaunchpad := AList.insert .bankr ⟨.bankr, Address.ZERO, bankrTopic, none⟩
    (AList.insert .flaunch ⟨.flaunch, Address.ZERO, flaunchTopic, none⟩ ∅)
  routing := AList.insert (Address.ZERO, bankrTopic) .bankr
    (AList.insert (Address.ZERO, flaunchTopic) .flaunch ∅)

theorem zero_spelled :
    fixedFromStr 20 (trim "0x0000000000000000000000000000000000000000") = .ok Address.ZERO := by
  decide +kernel

theorem twos_spelled : fixedFromStr 32 (trim twosTopic) = .ok (.repeatByte 32 0x22) := by
  decide +kernel

theorem threes_spelled : fixedFromStr 32 (trim threesTopic) = .ok (.repeatByte 32 0x33) := by
  decide +kernel

theorem placeholders_parsed (flaunchTopic bankrTopic : String) :
    (placeholderParsers flaunchTopic bankrTopic).tomlFromStr
        (placeholderToml flaunchTopic bankrTopic) =
      .ok (placeholderSections flaunchTopic bankrTopic) := by
  simp [placeholderParsers, fileParsers]

theorem placeholder_spells (flaunchTopic bankrTopic eventTopic : String) (t : B256)
    (h : fixedFromStr 32 (trim eventTopic) = .ok t) :
    Spells (placeholderParsers flaunchTopic bankrTopic) (placeholder eventTopic)
      Address.ZERO t := by
  constructor
  · dsimp only [placeholderParsers, fileParsers, placeholder]
    exact zero_spelled
  · dsimp only [placeholderParsers, fileParsers, placeholder]
    exact h

/-- The file is accepted whatever its two topics are. -/
theorem placeholders_accepted (flaunchTopic bankrTopic : String) (tf tb : B256)
    (hflaunch : fixedFromStr 32 (trim flaunchTopic) = .ok tf)
    (hbankr : fixedFromStr 32 (trim bankrTopic) = .ok tb) :
    fromTomlStr (placeholderParsers flaunchTopic bankrTopic)
        (placeholderToml flaunchTopic bankrTopic) =
      .ok (placeholderRegistry tf tb) := by
  have hinsert (topic : String) (t : B256) (h : fixedFromStr 32 (trim topic) = .ok t)
      (reg : FactoryRegistry) (lp : Launchpad) :=
    insert_of_spells reg lp (placeholder_spells flaunchTopic bankrTopic topic t h)
  have hfold : (sections (placeholderSections flaunchTopic bankrTopic)).foldlM
      (insertSection (placeholderParsers flaunchTopic bankrTopic)) empty =
        .ok (placeholderRegistry tf tb) := by
    simp only [sections, placeholderSections, List.foldlM_cons, List.foldlM_nil, insertSection,
      bind, Except.bind, hinsert _ _ hflaunch, hinsert _ _ hbankr]
    rfl
  unfold fromTomlStr
  rw [placeholders_parsed]
  simp only [Except.mapError, bind, Except.bind, hfold]
  rfl

theorem routesConfiguration_placeholders :
    RoutesConfiguration (placeholderParsers twosTopic threesTopic)
        (placeholderSections twosTopic threesTopic)
        (placeholderRegistry (.repeatByte 32 0x22) (.repeatByte 32 0x33)) ↔
      NoSharedPair (placeholderParsers twosTopic threesTopic)
        (placeholderSections twosTopic threesTopic) :=
  routesConfiguration_iff _ _ _ _ (placeholders_parsed twosTopic threesTopic)
    (placeholders_accepted _ _ _ _ twos_spelled threes_spelled)

/-- Two sections with one address and one topic are accepted, and the first of
them is routed to the second. -/
theorem shared_pair_accepted :
    ¬ ∀ (parsers : TextParsers) (body : String) (parsed : RawFactories) (reg : FactoryRegistry),
      parsers.tomlFromStr body = .ok parsed → fromTomlStr parsers body = .ok reg →
        RoutesConfiguration parsers parsed reg := by
  intro h
  have hroutes := h _ _ _ _ (placeholders_parsed twosTopic twosTopic)
    (placeholders_accepted _ _ _ _ twos_spelled twos_spelled)
  have hconfigured : Configured (placeholderParsers twosTopic twosTopic)
      (placeholderSections twosTopic twosTopic) .flaunch Address.ZERO (.repeatByte 32 0x22) :=
    ⟨placeholder twosTopic, by simp [sections, placeholderSections],
      placeholder_spells _ _ _ _ twos_spelled⟩
  have hflaunch := hroutes.routable _ _ _ hconfigured
  have hbankr : (placeholderRegistry (.repeatByte 32 0x22) (.repeatByte 32 0x22)).matchLog
      Address.ZERO (.repeatByte 32 0x22) = some .bankr := AList.lookup_insert _
  rw [hbankr] at hflaunch
  cases hflaunch

end FactoryRegistry

end ShadeIndexer.Core

import ShadeIndexer.Bytecode.SignatureFile

/-!
The order of a signature file. Signatures that spell the same selector replace
one another, so the order decides which of them the scan knows. It does not
matter exactly if no bit depends on that choice.
-/

namespace ShadeIndexer.Bytecode

open Lib.LastWins Lib.Masks

/-- On the runtime every order of the list gives the same mask, and every
listed signature whose selector occurs raises its flag. -/
structure OrderIrrelevant (items : List KnownSignature) (runtime : List UInt8) : Prop where
  sameMask : ∀ order sigs sigs', order.Perm items → Loads items sigs → Loads order sigs' →
    (scanBytecode runtime sigs').1 = (scanBytecode runtime sigs).1
  raised : ∀ sigs, Loads items sigs → ∀ s ∈ items, selectorBytes s <:+: runtime →
    Raises (scanBytecode runtime sigs).1 s.flag

/-- Some selector occurs, and whichever of its signatures is kept raises the
bit. -/
def Settled (items : List KnownSignature) (runtime : List UInt8) (i : Nat) : Prop :=
  ∃ s ∈ items, Occurs runtime (selectorBytes s) ∧
    ∀ t ∈ items, selectorBytes t = selectorBytes s →
      ¬ NamedTransfer t ∧ t.flag.getLsbD i = true

/-- The heuristic fires in every order. -/
def AlwaysFires (items : List KnownSignature) (runtime : List UInt8) : Prop :=
  (¬ TRANSFER_SELECTOR <:+: runtime ∨ ∀ s ∈ items, ¬ NamedTransfer s) ∧ AdvertisesErc20 runtime

/-- The heuristic fires in no order: the transfer selector occurs, and some
selector is named after it by all of its signatures. -/
def NeverFires (items : List KnownSignature) (runtime : List UInt8) : Prop :=
  (TRANSFER_SELECTOR <:+: runtime ∧ ∃ s ∈ items, ∀ t ∈ items,
    selectorBytes t = selectorBytes s → NamedTransfer t) ∨ ¬ AdvertisesErc20 runtime

/-- No bit depends on which of the signatures of a selector comes last. -/
structure OrderSafe (items : List KnownSignature) (runtime : List UInt8) : Prop where
  flags : ∀ s ∈ items, selectorBytes s <:+: runtime → ∀ i, s.flag.getLsbD i = true →
    Settled items runtime i ∨ (BYTECODE_HONEYPOT.getLsbD i = true ∧ AlwaysFires items runtime)
  heuristic : AlwaysFires items runtime ∨ NeverFires items runtime ∨
    ∀ i, BYTECODE_HONEYPOT.getLsbD i = true → Settled items runtime i

variable {items order : List KnownSignature} {runtime : List UInt8} {i : Nat}

theorem accepted_perm (h : order.Perm items)
    (haccepted : ∀ s ∈ items, (selectorBytes? s).isSome) :
    Loads order ⟨loadSignatures order⟩ := by
  apply loads_of_accepted
  intro s hs
  exact haccepted s (h.mem_iff.mp hs)

theorem Settled.raised {sigs : SignatureSet} (h : Settled items runtime i)
    (hperm : order.Perm items) (hloads : Loads order sigs) :
    (scanBytecode runtime sigs).1.getLsbD i = true := by
  obtain ⟨s, hs, hoccurs, hall⟩ := h
  obtain ⟨t, hkept, hkey⟩ := exists_kept selectorBytes (hperm.mem_iff.mpr hs)
  obtain ⟨hname, hbit⟩ := hall t (hperm.mem_iff.mp hkept.mem) hkey
  rw [hloads.bit_iff]
  exact Or.inl ⟨t, hkept, hname, hkey ▸ hoccurs, hbit⟩

theorem AlwaysFires.fires (h : AlwaysFires items runtime) (hperm : order.Perm items) :
    ListFires order runtime := by
  obtain ⟨hsafe, hadvertises⟩ := h
  refine ⟨?_, hadvertises⟩
  rintro ⟨⟨s, hkept, hname⟩, hoccurs⟩
  rcases hsafe with habsent | hnone
  · exact habsent hoccurs
  · exact hnone s (hperm.mem_iff.mp hkept.mem) hname

theorem NeverFires.silent (h : NeverFires items runtime) (hperm : order.Perm items) :
    ¬ ListFires order runtime := by
  rintro ⟨hsafe, hadvertises⟩
  rcases h with ⟨hoccurs, s, hs, hall⟩ | hsilent
  · obtain ⟨t, hkept, hkey⟩ := exists_kept selectorBytes (hperm.mem_iff.mpr hs)
    exact hsafe ⟨⟨t, hkept, hall t (hperm.mem_iff.mp hkept.mem) hkey⟩, hoccurs⟩
  · exact hsilent hadvertises

/-- In a safe list the bits of the mask are the same for every order. -/
theorem OrderSafe.bit_iff {sigs : SignatureSet} (h : OrderSafe items runtime)
    (hperm : order.Perm items) (hloads : Loads order sigs) :
    (scanBytecode runtime sigs).1.getLsbD i = true ↔
      Settled items runtime i ∨
        (BYTECODE_HONEYPOT.getLsbD i = true ∧ AlwaysFires items runtime) := by
  constructor
  · intro hbit
    rcases (hloads.bit_iff runtime i).mp hbit with
      ⟨s, hkept, _, hoccurs, hflag⟩ | ⟨hfires, hhoneypot⟩
    · have hinfix := ((occurs_iff_isInfix _ _).mp hoccurs).2
      exact h.flags s (hperm.mem_iff.mp hkept.mem) hinfix i hflag
    · rcases h.heuristic with halways | hnever | hsettled
      · exact Or.inr ⟨hhoneypot, halways⟩
      · exact absurd hfires (hnever.silent hperm)
      · exact Or.inl (hsettled i hhoneypot)
  · rintro (hsettled | ⟨hhoneypot, halways⟩)
    · exact hsettled.raised hperm hloads
    · rw [hloads.bit_iff]
      exact Or.inr ⟨halways.fires hperm, hhoneypot⟩

theorem OrderSafe.orderIrrelevant (h : OrderSafe items runtime) :
    OrderIrrelevant items runtime where
  sameMask := by
    intro order sigs sigs' hperm hloads hloads'
    rw [ext_iff]
    intro i
    rw [h.bit_iff hperm hloads', h.bit_iff (List.Perm.refl _) hloads]
  raised := by
    intro sigs hloads s hs hinfix i hbit
    rw [h.bit_iff (List.Perm.refl _) hloads]
    exact h.flags s hs hinfix i hbit

/-- The signature does not raise the bit. -/
def Mute (runtime : List UInt8) (i : Nat) (s : KnownSignature) : Prop :=
  NamedTransfer s ∨ ¬ Occurs runtime (selectorBytes s) ∨ s.flag.getLsbD i = false

theorem exists_mute (h : ¬ Settled items runtime i) :
    ∀ s ∈ items, ∃ t ∈ items, selectorBytes t = selectorBytes s ∧ Mute runtime i t := by
  intro s hs
  by_cases hoccurs : Occurs runtime (selectorBytes s)
  · by_contra hnone
    refine h ⟨s, hs, hoccurs, ?_⟩
    intro t ht hkey
    have hloud : ¬ Mute runtime i t := fun hmute => hnone ⟨t, ht, hkey, hmute⟩
    simp only [Mute, not_or, Bool.not_eq_false] at hloud
    exact ⟨hloud.1, hloud.2.2⟩
  · exact ⟨s, hs, rfl, Or.inr (Or.inl hoccurs)⟩

/-- Where all that is kept is mute, only the heuristic can raise the bit. -/
theorem bit_of_mute {sigs : SignatureSet} (hloads : Loads order sigs)
    (hmute : ∀ s, Kept selectorBytes order s → Mute runtime i s)
    (hbit : (scanBytecode runtime sigs).1.getLsbD i = true) :
    ListFires order runtime ∧ BYTECODE_HONEYPOT.getLsbD i = true := by
  rcases (hloads.bit_iff runtime i).mp hbit with ⟨s, hkept, hname, hoccurs, hflag⟩ | hfires
  · rcases hmute s hkept with htransfer | habsent | hclear
    · exact absurd htransfer hname
    · exact absurd hoccurs habsent
    · rw [hclear] at hflag
      cases hflag
  · exact hfires

/-- A signature that is named after the transfer function can be kept, with
mute ones under the other selectors. -/
theorem exists_perm_naming (hunsettled : ¬ Settled items runtime i) {t : KnownSignature}
    (ht : t ∈ items) (hname : NamedTransfer t) :
    ∃ order : List KnownSignature, order.Perm items ∧ Kept selectorBytes order t ∧
      ∀ s, Kept selectorBytes order s → Mute runtime i s := by
  classical
  obtain ⟨order, hperm, hprefer⟩ := exists_perm_prefer selectorBytes items
    (fun s => s = t ∨ (selectorBytes s ≠ selectorBytes t ∧ Mute runtime i s)) (by
      intro s hs
      by_cases hkey : selectorBytes s = selectorBytes t
      · exact ⟨t, ht, hkey.symm, Or.inl rfl⟩
      · obtain ⟨u, hu, hsame, hmute⟩ := exists_mute hunsettled s hs
        exact ⟨u, hu, hsame, Or.inr ⟨hsame ▸ hkey, hmute⟩⟩)
  refine ⟨order, hperm, ?_, ?_⟩
  · obtain ⟨u, hkept, hkey⟩ := exists_kept selectorBytes (hperm.mem_iff.mpr ht)
    rcases hprefer u hkept with rfl | ⟨hother, _⟩
    · exact hkept
    · exact absurd hkey hother
  · intro s hkept
    rcases hprefer s hkept with rfl | ⟨_, hmute⟩
    · exact Or.inl hname
    · exact hmute

/-- Some order hides a bit that is not settled, unless the heuristic raises it
in every order. -/
theorem exists_hiding_order (hunsettled : ¬ Settled items runtime i)
    (hheuristic : ¬ (BYTECODE_HONEYPOT.getLsbD i = true ∧ AlwaysFires items runtime)) :
    ∃ order : List KnownSignature, order.Perm items ∧ ∀ sigs, Loads order sigs →
      (scanBytecode runtime sigs).1.getLsbD i = false := by
  classical
  obtain ⟨order, hperm, hmute⟩ := exists_perm_prefer selectorBytes items (Mute runtime i)
    (exists_mute hunsettled)
  by_cases hnaming : TRANSFER_SELECTOR <:+: runtime ∧ ∃ t ∈ items, NamedTransfer t
  · obtain ⟨hoccurs, t, ht, hname⟩ := hnaming
    obtain ⟨order, hperm, hkept, hmute⟩ := exists_perm_naming hunsettled ht hname
    refine ⟨order, hperm, fun sigs hloads => ?_⟩
    by_contra hbit
    have hfires := bit_of_mute hloads hmute (by simpa using hbit)
    exact hfires.1.1 ⟨⟨t, hkept, hname⟩, hoccurs⟩
  · refine ⟨order, hperm, fun sigs hloads => ?_⟩
    by_contra hbit
    obtain ⟨hfires, hhoneypot⟩ := bit_of_mute hloads hmute (by simpa using hbit)
    refine hheuristic ⟨hhoneypot, ?_, hfires.2⟩
    refine (not_and_or.mp hnaming).imp_right fun hnone s hs hname => ?_
    exact hnone ⟨s, hs, hname⟩

/-- Some order makes the heuristic fire, unless it fires in none. -/
theorem exists_firing_order (h : ¬ NeverFires items runtime) :
    ∃ order : List KnownSignature, order.Perm items ∧ ListFires order runtime := by
  obtain ⟨hnaming, hadvertises⟩ := not_or.mp h
  rw [not_not] at hadvertises
  by_cases hoccurs : TRANSFER_SELECTOR <:+: runtime
  · obtain ⟨order, hperm, hplain⟩ := exists_perm_prefer selectorBytes items
      (fun s => ¬ NamedTransfer s) (by
        intro s hs
        by_contra hnone
        refine hnaming ⟨hoccurs, s, hs, fun t ht hkey => ?_⟩
        by_contra hname
        exact hnone ⟨t, ht, hkey, hname⟩)
    refine ⟨order, hperm, ?_, hadvertises⟩
    rintro ⟨⟨s, hkept, hname⟩, _⟩
    exact hplain s hkept hname
  · exact ⟨items, List.Perm.refl _, fun hfires => hoccurs hfires.2, hadvertises⟩

theorem OrderIrrelevant.orderSafe (haccepted : ∀ s ∈ items, (selectorBytes? s).isSome)
    (h : OrderIrrelevant items runtime) : OrderSafe items runtime where
  flags := by
    intro s hs hinfix i hbit
    by_contra hnone
    obtain ⟨hunsettled, hheuristic⟩ := not_or.mp hnone
    obtain ⟨order, hperm, hhidden⟩ := exists_hiding_order hunsettled hheuristic
    have hloads := accepted_perm hperm haccepted
    have hraised := h.raised _ (loads_of_accepted haccepted) s hs hinfix i hbit
    rw [← h.sameMask order _ _ hperm (loads_of_accepted haccepted) hloads,
      hhidden _ hloads] at hraised
    cases hraised
  heuristic := by
    by_contra hnone
    obtain ⟨hsometimes, hrest⟩ := not_or.mp hnone
    obtain ⟨hfires, hunsettled⟩ := not_or.mp hrest
    push Not at hunsettled
    obtain ⟨i, hhoneypot, hunsettled⟩ := hunsettled
    obtain ⟨silent, hsilent, hhidden⟩ := exists_hiding_order hunsettled
      fun halways => hsometimes halways.2
    obtain ⟨firing, hfiring, hlist⟩ := exists_firing_order hfires
    have hbase := loads_of_accepted haccepted
    have hsame := (h.sameMask firing _ _ hfiring hbase (accepted_perm hfiring haccepted)).trans
      (h.sameMask silent _ _ hsilent hbase (accepted_perm hsilent haccepted)).symm
    have hraised := ((accepted_perm hfiring haccepted).bit_iff runtime i).mpr
      (Or.inr ⟨hlist, hhoneypot⟩)
    rw [hsame, hhidden _ (accepted_perm hsilent haccepted)] at hraised
    cases hraised

/-- On a runtime the order of an accepted list is irrelevant, and every listed
selector that occurs is reported, exactly if no bit depends on which of the
signatures of a selector comes last. -/
theorem orderIrrelevant_iff (items : List KnownSignature) (set : SignatureSet)
    (runtime : List UInt8) (haccepted : SignatureSet.tryFromIter items = .ok set) :
    OrderIrrelevant items runtime ↔ OrderSafe items runtime := by
  have hspelled := ((tryFromIter_iff items set).mp haccepted).1
  exact ⟨fun h => h.orderSafe hspelled, fun h => h.orderIrrelevant⟩

/-- The builtin list spells every selector once, so each that occurs settles the
bits of its flag. -/
theorem builtin_settled {s : KnownSignature} (hs : s ∈ SignatureSet.builtinItems)
    (hfound : selectorBytes s <:+: runtime) (hbit : s.flag.getLsbD i = true) :
    Settled SignatureSet.builtinItems runtime i := by
  have honce : ∀ s ∈ SignatureSet.builtinItems, ∀ t ∈ SignatureSet.builtinItems,
      selectorBytes t = selectorBytes s → t = s := by decide
  have hflagless : ∀ s ∈ SignatureSet.builtinItems, s.name = "transfer(address,uint256)" →
      s.flag = 0 := by decide
  have hspelled : ∀ s ∈ SignatureSet.builtinItems, selectorBytes s ≠ [] := by decide
  refine ⟨s, hs, (occurs_iff_isInfix _ _).mpr ⟨hspelled s hs, hfound⟩, ?_⟩
  intro t ht hkey
  obtain rfl := honce s hs t ht hkey
  refine ⟨fun hname => ?_, hbit⟩
  rw [hflagless t ht hname] at hbit
  simp at hbit

theorem orderIrrelevant_builtin :
    OrderIrrelevant SignatureSet.builtinItems mintableToken ∧
      (scanBytecode mintableToken SignatureSet.builtin).1 =
        BYTECODE_MINT_BACKDOOR ||| BYTECODE_PAUSABLE := by
  refine ⟨?_, by decide⟩
  refine (orderIrrelevant_iff _ _ mintableToken SignatureSet.builtin_parses).mpr ⟨?_, ?_⟩
  · intro s hs hinfix i hbit
    exact Or.inl (builtin_settled hs hinfix hbit)
  · exact Or.inr (Or.inl (Or.inl (by decide)))

/-- Two spellings of one selector, with different flags. -/
def collidingItems : List KnownSignature :=
  [⟨"f9f92be4", BYTECODE_BLACKLIST, "blacklist(address)"⟩,
    ⟨"0xF9F92BE4", BYTECODE_PAUSABLE, "pause()"⟩]

/-- The later spelling replaces the earlier one, whose flag is never raised. -/
theorem earlier_spelling_is_lost :
    ¬ ∀ (items : List KnownSignature) (set : SignatureSet) (runtime : List UInt8),
      SignatureSet.tryFromIter items = .ok set → OrderIrrelevant items runtime := by
  intro h
  have hspelled : ∀ s ∈ collidingItems, (selectorBytes? s).isSome := by decide
  have hset := (tryFromIter_iff collidingItems ⟨loadSignatures collidingItems⟩).mpr
    ⟨hspelled, rfl⟩
  have hraised := (h collidingItems _ [0xf9, 0xf9, 0x2b, 0xe4] hset).raised _
    (loads_of_accepted hspelled)
    ⟨"f9f92be4", BYTECODE_BLACKLIST, "blacklist(address)"⟩ (by decide) (by decide) 3 (by decide)
  revert hraised
  decide

end ShadeIndexer.Bytecode

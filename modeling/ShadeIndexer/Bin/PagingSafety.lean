import ShadeIndexer.Bin.Backfill

/-!
The arithmetic of the backfill loop for every page size the command line
admits. `start`, `page_size` and `to` are `u64` values that nothing validates,
so `start + page_size - 1` and `end + 1` may leave the range of the type, and a
page may be empty. `PagingSafe` says that none of this happens in a run.
-/

namespace ShadeIndexer.Bin.Backfill

open ShadeIndexer.Core Lib.Rust Lib.Loop Lib.Paging

/-- A run of the loop comes to its head with these values. -/
abbrev LoopHead (reg : FactoryRegistry) (provider : Provider) (args : Args) (toBlock start : UInt64)
    (st : Progress) : Prop :=
  Visits (pageIteration reg provider args toBlock) (args.fromBlock, .start) (start, st)

/-- The sums and the difference of one turn are those of the natural numbers. -/
structure NoWrap (start size toBlock : UInt64) : Prop where
  add : start.toNat + size.toNat < 2 ^ 64
  sub : 1 ≤ start.toNat + size.toNat
  next : min (start.toNat + size.toNat - 1) toBlock.toNat + 1 < 2 ^ 64

structure PagingSafe (reg : FactoryRegistry) (provider : Provider) (args : Args)
    (toBlock : UInt64) : Prop where
  exact : ∀ start st, LoopHead reg provider args toBlock start st → start ≤ toBlock →
    NoWrap start args.pageSize toBlock
  advances : ∀ start st next st', LoopHead reg provider args toBlock start st →
    pageIteration reg provider args toBlock (start, st) = .inr (next, st') → start < next
  returns : ∃ fuel result,
    pageLoop reg provider args toBlock fuel args.fromBlock .start = some result

/-- The pages of a run, the last one at its full size, end inside `u64`. -/
def PageRoom (size fromBlock toBlock : UInt64) : Prop :=
  1 ≤ size.toNat ∧ gridEnd size.toNat fromBlock.toNat toBlock.toNat < 2 ^ 64

variable {reg : FactoryRegistry} {provider : Provider} {args : Args}
  {toBlock start next : UInt64} {st st' : Progress}

/-- A turn that goes on does so right behind its page. -/
theorem next_of_pageIteration
    (hturn : pageIteration reg provider args toBlock (start, st) = .inr (next, st')) :
    start ≤ toBlock ∧ next = min (start + args.pageSize - 1) toBlock + 1 := by
  by_cases hstart : start ≤ toBlock
  · cases hlogs : provider.getLogs
        (pageFilter reg start (min (start + args.pageSize - 1) toBlock)) with
    | error cause =>
        rw [pageIteration_refused hstart hlogs] at hturn
        cases hturn
    | ok logs =>
        rw [pageIteration_answered hstart hlogs] at hturn
        exact ⟨hstart, (Prod.mk.inj (Sum.inr.inj hturn)).1.symm⟩
  · rw [pageIteration_over hstart] at hturn
    cases hturn

/-- Without wrapping the next turn starts one page further, or behind the end. -/
theorem NoWrap.toNat_next (h : NoWrap start args.pageSize toBlock)
    (hturn : pageIteration reg provider args toBlock (start, st) = .inr (next, st')) :
    next.toNat = min (start.toNat + args.pageSize.toNat - 1) toBlock.toNat + 1 := by
  have hstop := stop_toNat start args.pageSize toBlock h.sub h.add
  have hnext := h.next
  rw [(next_of_pageIteration hturn).2, UInt64.toNat_add, hstop]
  simp only [UInt64.toNat_one]
  omega

theorem PageRoom.noWrap (h : PageRoom args.pageSize start toBlock) (hstart : start ≤ toBlock) :
    NoWrap start args.pageSize toBlock := by
  obtain ⟨hsize, hroom⟩ := h
  have hpage := page_le_gridEnd args.pageSize.toNat start.toNat toBlock.toNat
  rw [UInt64.le_iff_toNat_le] at hstart
  refine ⟨by omega, by omega, ?_⟩
  omega

/-- The room is that of the whole grid, so no turn uses any of it up. -/
theorem PageRoom.turn (h : PageRoom args.pageSize start toBlock)
    (hturn : pageIteration reg provider args toBlock (start, st) = .inr (next, st'))
    (hnext : next ≤ toBlock) : PageRoom args.pageSize next toBlock := by
  have hstart := (next_of_pageIteration hturn).1
  have hstep := (h.noWrap hstart).toNat_next hturn
  obtain ⟨hsize, hroom⟩ := h
  rw [UInt64.le_iff_toNat_le] at hnext
  have hpage : next.toNat = start.toNat + args.pageSize.toNat := by omega
  refine ⟨hsize, ?_⟩
  rw [hpage, gridEnd_next hsize (by omega)]
  exact hroom

theorem LoopHead.pageRoom (hroom : PageRoom args.pageSize args.fromBlock toBlock)
    (h : LoopHead reg provider args toBlock start st) (hstart : start ≤ toBlock) :
    PageRoom args.pageSize start toBlock := by
  refine h.invariant (fun s => s.1 ≤ toBlock → PageRoom args.pageSize s.1 toBlock)
    (fun _ => hroom) ?_ hstart
  intro s t hs hturn ht
  exact (hs (next_of_pageIteration hturn).1).turn hturn ht

/-- A page of at least one block moves the loop forward. -/
theorem PageRoom.lt_next (h : PageRoom args.pageSize start toBlock)
    (hturn : pageIteration reg provider args toBlock (start, st) = .inr (next, st')) :
    start < next := by
  have hstart := (next_of_pageIteration hturn).1
  have hstep := (h.noWrap hstart).toNat_next hturn
  have hsize := h.1
  rw [UInt64.le_iff_toNat_le] at hstart
  rw [UInt64.lt_iff_toNat_lt]
  omega

/-- Every turn makes the blocks that are left fewer. -/
theorem PageRoom.returns (h : PageRoom args.pageSize start toBlock) (st : Progress) :
    ∃ fuel result, pageLoop reg provider args toBlock fuel start st = some result := by
  refine iterate_returns (fun s => s.1 ≤ toBlock → PageRoom args.pageSize s.1 toBlock)
    (fun s => toBlock.toNat + 1 - s.1.toNat) ?_ (fun _ => h)
  intro s t hs hturn
  have hstart := (next_of_pageIteration hturn).1
  have hless := (hs hstart).lt_next hturn
  refine ⟨(hs hstart).turn hturn, ?_⟩
  rw [UInt64.le_iff_toNat_le] at hstart
  rw [UInt64.lt_iff_toNat_lt] at hless
  omega

/-- The node answers every query. -/
def Provider.Answers (provider : Provider) : Prop := ∀ f, ∃ logs, provider.getLogs f = .ok logs

theorem Provider.Answers.turn (h : provider.Answers) (reg : FactoryRegistry) (args : Args)
    (st : Progress) (hstart : start ≤ toBlock) :
    ∃ next st', pageIteration reg provider args toBlock (start, st) = .inr (next, st') := by
  obtain ⟨logs, hlogs⟩ := h (pageFilter reg start (min (start + args.pageSize - 1) toBlock))
  exact ⟨_, _, pageIteration_answered hstart hlogs st⟩

/-- An empty page leaves the loop where it is, so it never returns. -/
theorem pageLoop_empty_page (h : provider.Answers) (hsize : args.pageSize = 0)
    (hpos : 1 ≤ start.toNat) (hstart : start ≤ toBlock) (fuel : Nat) (st : Progress) :
    pageLoop reg provider args toBlock fuel start st = none := by
  have hwrap : NoWrap start args.pageSize toBlock := by
    have hlt := start.toNat_lt
    rw [hsize]
    refine ⟨?_, ?_, ?_⟩ <;> simp only [UInt64.toNat_zero] <;> omega
  refine iterate_diverges (fun s => s.1 = start) ?_ rfl fuel
  rintro ⟨_, st⟩ rfl
  obtain ⟨next, st', hturn⟩ := h.turn reg args st hstart
  have hstep := hwrap.toNat_next hturn
  rw [UInt64.le_iff_toNat_le] at hstart
  rw [hsize, UInt64.toNat_zero] at hstep
  exact ⟨(next, st'), hturn, UInt64.toNat.inj (by dsimp only at *; omega)⟩

/-- While the node answers, the run visits the grid to its end, so sums that
never wrap leave room for all of it. -/
theorem gridEnd_lt (h : provider.Answers) (hsize : 1 ≤ args.pageSize.toNat)
    (hexact : ∀ start st, LoopHead reg provider args toBlock start st → start ≤ toBlock →
      NoWrap start args.pageSize toBlock)
    (n : Nat) (start : UInt64) (st : Progress) (hrest : toBlock.toNat - start.toNat < n)
    (hhead : LoopHead reg provider args toBlock start st) (hstart : start ≤ toBlock) :
    gridEnd args.pageSize.toNat start.toNat toBlock.toNat < 2 ^ 64 := by
  induction n generalizing start st with
  | zero => omega
  | succ n ih =>
      have hwrap := hexact start st hhead hstart
      obtain ⟨next, st', hturn⟩ := h.turn reg args st hstart
      have hstep := hwrap.toNat_next hturn
      have hle := UInt64.le_iff_toNat_le.mp hstart
      by_cases hpage : start.toNat + args.pageSize.toNat ≤ toBlock.toNat
      · have hnext : next.toNat = start.toNat + args.pageSize.toNat := by omega
        have hmore : next ≤ toBlock := by
          rw [UInt64.le_iff_toNat_le]
          omega
        rw [← gridEnd_next hsize hpage, ← hnext]
        exact ih next st' (by omega) (hhead.turn hturn) hmore
      · rw [gridEnd_last hle (by omega)]
        exact hwrap.add

/-- A chain without logs. -/
def Provider.quiet : Provider := .over fun _ => []

theorem Provider.quiet_answers : Provider.quiet.Answers := fun f => ⟨f.answer fun _ => [], rfl⟩

/-- The paging loop is safe with every node exactly if the page size is not zero
and the grid of full pages ends inside `u64`. -/
theorem pagingSafe_iff_pageRoom (reg : FactoryRegistry) (args : Args) (toBlock : UInt64)
    (hrange : args.fromBlock ≤ toBlock) :
    (∀ provider, PagingSafe reg provider args toBlock) ↔
      PageRoom args.pageSize args.fromBlock toBlock := by
  constructor
  · intro hsafe
    obtain ⟨hexact, hadvances, -⟩ := hsafe .quiet
    have hsize : 1 ≤ args.pageSize.toNat := by
      obtain ⟨next, st, hturn⟩ := Provider.quiet_answers.turn reg args .start hrange
      have hwrap := hexact _ _ .first hrange
      have hstep := hwrap.toNat_next hturn
      have hless := hadvances _ _ _ _ .first hturn
      have hone := hwrap.sub
      rw [UInt64.lt_iff_toNat_lt] at hless
      omega
    exact ⟨hsize, gridEnd_lt Provider.quiet_answers hsize hexact (toBlock.toNat + 1)
      args.fromBlock .start (by omega) .first hrange⟩
  · intro hroom provider
    refine ⟨?_, ?_, ?_⟩
    · intro start st hhead hstart
      exact (hhead.pageRoom hroom hstart).noWrap hstart
    · intro start st next st' hhead hturn
      exact (hhead.pageRoom hroom (next_of_pageIteration hturn).1).lt_next hturn
    · exact hroom.returns .start

/-- The default page size is safe on a short range, and not at the top of `u64`. -/
theorem pagingSafe_iff_pageRoom_defaultSize :
    (∀ provider, PagingSafe zoraOnly provider ⟨1, some 5, 2000, true⟩ 5) ∧
      ¬ ∀ provider, PagingSafe zoraOnly provider ⟨1, none, 2000, true⟩ 18446744073709551615 := by
  constructor
  · exact (pagingSafe_iff_pageRoom zoraOnly ⟨1, some 5, 2000, true⟩ 5 (by decide)).mpr
      ⟨by decide, by decide⟩
  · intro hsafe
    have hroom := (pagingSafe_iff_pageRoom zoraOnly ⟨1, none, 2000, true⟩ 18446744073709551615
      (by decide)).mp hsafe
    exact absurd hroom.2 (by decide)

/-- With a page size of zero the loop asks for the same empty page for ever. -/
theorem emptyPage_not_pagingSafe :
    (1 : UInt64) ≤ 1 ∧ ¬ PagingSafe zoraOnly .quiet ⟨1, some 1, 0, true⟩ 1 := by
  refine ⟨UInt64.le_refl 1, ?_⟩
  intro hsafe
  obtain ⟨fuel, result, hresult⟩ := hsafe.returns
  rw [pageLoop_empty_page Provider.quiet_answers rfl (by decide) (UInt64.le_refl 1)] at hresult
  cases hresult

end ShadeIndexer.Bin.Backfill

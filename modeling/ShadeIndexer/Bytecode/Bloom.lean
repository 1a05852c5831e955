import ShadeIndexer.Core.Primitives
import ShadeIndexer.Lib.BitWords

/-!
The Bloom filter over byte strings, on a 64-bit target. The digest is a
parameter in place of Blake2b-128. Indexing the words panics out of range, and
none of the functions returns an error value, so a run of one can only end in
its value or in a panic.
-/

namespace ShadeIndexer.Bytecode

open ShadeIndexer.Core Lib.Rust Lib.BigEndian Lib.BitWords

/-- `m_bits.div_ceil(64)` -/
def wordsFor (mBits : UInt64) : Nat := (mBits.toNat + 63) / 64

/-- Standard Bloom filter with double-hashing trick:
`h_i(x) = h_a(x) + i·h_b(x) mod m`. -/
structure Bloom where
  mBits : UInt64
  k : UInt32
  bits : Words (wordsFor mBits)
  nInserted : UInt64
  wide : 64 ≤ mBits.toNat
  hashed : 1 ≤ k.toNat

abbrev Digest := Bytes → FixedBytes 16

abbrev Run := Result Empty

/-- `u64::from_le_bytes`. -/
def fromLeBytes (bytes : Bytes) : UInt64 := UInt64.ofNat (beNat bytes.reverse)

def doubleHash (digest : Digest) (item : Bytes) : UInt64 × UInt64 :=
  let out := digest item
  let a := fromLeBytes (out.bytes.take 8)
  let b := fromLeBytes ((out.bytes.drop 8).take 8)
  -- an odd step is coprime with any power-of-two width
  (a, b ||| 1)

def combine (a b : UInt64) (i : UInt32) (mBits : UInt64) : UInt64 :=
  let h := a + i.toUInt64 * b
  h % mBits

def setBit {n : Nat} (bits : Words n) (bit : UInt64) : Run (Words n) :=
  let (w, b) := (bit.toNat / 64, bit.toNat % 64)
  if h : w < n then .ok (bits.set w (bits[w] ||| 1#64 <<< b))
  else .error (.panic .indexOutOfBounds)

def getBit {n : Nat} (bits : Words n) (bit : UInt64) : Run Bool :=
  let (w, b) := (bit.toNat / 64, bit.toNat % 64)
  if h : w < n then .ok ((bits[w] >>> b) &&& 1#64 == 1#64)
  else .error (.panic .indexOutOfBounds)

/-- `0..k` -/
def hashIndices (k : UInt32) : List UInt32 := (List.range k.toNat).map UInt32.ofNat

/-- The loop of `contains`, which returns at the first clear bit. -/
def allSet {n : Nat} (bits : Words n) (a b mBits : UInt64) : List UInt32 → Run Bool
  | [] => .ok true
  | i :: rest => do
      let set ← getBit bits (combine a b i mBits)
      if !set then pure false else allSet bits a b mBits rest

namespace Bloom

/-- `None` stands for a failed assertion. -/
def new (mBits : UInt64) (k : UInt32) : Option Bloom :=
  if hwide : 64 ≤ mBits.toNat then
    if hhashed : 1 ≤ k.toNat then
      some ⟨mBits, k, Vector.replicate _ 0#64, 0, hwide, hhashed⟩
    else none
  else none

def insert (digest : Digest) (self : Bloom) (item : Bytes) : Run Bloom := do
  let (a, b) := doubleHash digest item
  let bits ← (hashIndices self.k).foldlM
    (fun bits i => setBit bits (combine a b i self.mBits)) self.bits
  pure { self with bits, nInserted := self.nInserted + 1 }

def contains (digest : Digest) (self : Bloom) (item : Bytes) : Run Bool :=
  let (a, b) := doubleHash digest item
  allSet self.bits a b self.mBits (hashIndices self.k)

end Bloom

/-- The positions that the item is hashed to. -/
def probes (digest : Digest) (mBits : UInt64) (k : UInt32) (item : Bytes) : List UInt64 :=
  let (a, b) := doubleHash digest item
  (hashIndices k).map fun i => combine a b i mBits

theorem combine_lt (a b : UInt64) (i : UInt32) (mBits : UInt64) (hwide : 64 ≤ mBits.toNat) :
    (combine a b i mBits).toNat < mBits.toNat := by
  rw [combine, UInt64.toNat_mod]
  exact Nat.mod_lt _ (by omega)

/-- A position below the width addresses a word. -/
theorem word_lt (mBits bit : UInt64) (h : bit.toNat < mBits.toNat) :
    bit.toNat / 64 < wordsFor mBits := by
  rw [wordsFor]
  omega

theorem probes_in_range (digest : Digest) (mBits : UInt64) (k : UInt32) (item : Bytes)
    (hwide : 64 ≤ mBits.toNat) : ∀ p ∈ probes digest mBits k item,
      p.toNat < mBits.toNat ∧ p.toNat / 64 < wordsFor mBits := by
  intro p hp
  obtain ⟨i, _, rfl⟩ := List.mem_map.mp hp
  have hlt := combine_lt (doubleHash digest item).1 (doubleHash digest item).2 i mBits hwide
  exact ⟨hlt, word_lt _ _ hlt⟩

theorem setBit_ok {n : Nat} (bits : Words n) (bit : UInt64) (h : bit.toNat / 64 < n) :
    setBit bits bit = .ok (raise bits bit.toNat h) := dif_pos h

theorem getBit_ok {n : Nat} (bits : Words n) (bit : UInt64) (h : bit.toNat / 64 < n) :
    getBit bits bit = .ok (bitAt bits bit.toNat) := by
  rw [getBit, dif_pos h, shift_and_one, bitAt, dif_pos h]

/-- The loop of `insert` sets the positions it visits and changes no other. -/
theorem setAll_spec {n : Nat} (a b mBits : UInt64) (indices : List UInt32) (bits : Words n)
    (hrange : ∀ i ∈ indices, (combine a b i mBits).toNat / 64 < n) :
    ∃ bits', indices.foldlM (fun bits i => setBit bits (combine a b i mBits)) bits = .ok bits' ∧
      ∀ p : UInt64, bitAt bits' p.toNat = true ↔
        bitAt bits p.toNat = true ∨ p ∈ indices.map fun i => combine a b i mBits := by
  induction indices generalizing bits with
  | nil => exact ⟨bits, rfl, by simp⟩
  | cons i rest ih =>
      have hhead := hrange i (List.mem_cons_self ..)
      obtain ⟨bits', hrun, hbits⟩ := ih (raise bits (combine a b i mBits).toNat hhead)
        fun j hj => hrange j (List.mem_cons_of_mem _ hj)
      refine ⟨bits', ?_, ?_⟩
      · rw [List.foldlM_cons, setBit_ok _ _ hhead, ok_bind, hrun]
      · intro p
        rw [hbits, bitAt_raise, Bool.or_eq_true, decide_eq_true_iff, UInt64.toNat_inj,
          List.map_cons, List.mem_cons, eq_comm]
        tauto

/-- The loop of `contains` tells whether every position it visits is set. -/
theorem allSet_spec {n : Nat} (bits : Words n) (a b mBits : UInt64) (indices : List UInt32)
    (hrange : ∀ i ∈ indices, (combine a b i mBits).toNat / 64 < n) :
    ∃ answer, allSet bits a b mBits indices = .ok answer ∧
      (answer = true ↔ ∀ p ∈ indices.map fun i => combine a b i mBits,
        bitAt bits p.toNat = true) := by
  induction indices with
  | nil => exact ⟨true, rfl, by simp⟩
  | cons i rest ih =>
      have hhead := hrange i (List.mem_cons_self ..)
      obtain ⟨answer, hrun, hanswer⟩ := ih fun j hj => hrange j (List.mem_cons_of_mem _ hj)
      rw [allSet, getBit_ok _ _ hhead, ok_bind]
      cases hbit : bitAt bits (combine a b i mBits).toNat with
      | true =>
          refine ⟨answer, hrun, ?_⟩
          rw [hanswer, List.map_cons, List.forall_mem_cons]
          simp [hbit]
      | false =>
          refine ⟨false, rfl, ?_⟩
          simp [hbit]

/-- The filter stands for a set of positions. -/
def Bloom.Represents (self : Bloom) (occupied : Set UInt64) : Prop :=
  ∀ p : UInt64, bitAt self.bits p.toNat = true ↔ p ∈ occupied

/-- The positions that the given items take up. -/
def occupied (digest : Digest) (mBits : UInt64) (k : UInt32) (items : List Bytes) : Set UInt64 :=
  {p | ∃ x ∈ items, p ∈ probes digest mBits k x}

/-- What the filter answers for an item, as a statement about positions. -/
def Covered (digest : Digest) (mBits : UInt64) (k : UInt32) (set : Set UInt64) (item : Bytes) :
    Prop :=
  ∀ p ∈ probes digest mBits k item, p ∈ set

namespace Bloom

variable (digest : Digest)

/-- A filter of the given parameters with nothing in it. -/
def empty (mBits : UInt64) (k : UInt32) (hwide : 64 ≤ mBits.toNat) (hhashed : 1 ≤ k.toNat) :
    Bloom := ⟨mBits, k, Vector.replicate _ 0#64, 0, hwide, hhashed⟩

theorem new_eq (mBits : UInt64) (k : UInt32) (hwide : 64 ≤ mBits.toNat) (hhashed : 1 ≤ k.toNat) :
    new mBits k = some (empty mBits k hwide hhashed) := by
  rw [new, dif_pos hwide, dif_pos hhashed]
  rfl

/-- An insert adds the positions of the item. -/
theorem insert_spec (self : Bloom) (item : Bytes) {set : Set UInt64} (hset : self.Represents set) :
    ∃ next, self.insert digest item = .ok next ∧ next.mBits = self.mBits ∧ next.k = self.k ∧
      next.Represents (set ∪ {p | p ∈ probes digest self.mBits self.k item}) := by
  have hrange : ∀ i ∈ hashIndices self.k, (combine (doubleHash digest item).1
      (doubleHash digest item).2 i self.mBits).toNat / 64 < wordsFor self.mBits := by
    intro i _
    exact word_lt _ _ (combine_lt _ _ _ _ self.wide)
  obtain ⟨bits, hrun, hbits⟩ := setAll_spec _ _ self.mBits (hashIndices self.k) self.bits hrange
  refine ⟨{ self with bits, nInserted := self.nInserted + 1 }, ?_, rfl, rfl, ?_⟩
  · rw [insert]
    simp only [hrun, ok_bind]
    rfl
  · intro p
    dsimp only
    rw [hbits, hset p]
    rfl

/-- The answer of the filter is about positions only. -/
theorem contains_spec (self : Bloom) (item : Bytes) {set : Set UInt64}
    (hset : self.Represents set) :
    ∃ answer, self.contains digest item = .ok answer ∧
      (answer = true ↔ Covered digest self.mBits self.k set item) := by
  have hrange : ∀ i ∈ hashIndices self.k, (combine (doubleHash digest item).1
      (doubleHash digest item).2 i self.mBits).toNat / 64 < wordsFor self.mBits := by
    intro i _
    exact word_lt _ _ (combine_lt _ _ _ _ self.wide)
  obtain ⟨answer, hrun, hanswer⟩ := allSet_spec self.bits _ _ self.mBits (hashIndices self.k) hrange
  refine ⟨answer, hrun, ?_⟩
  rw [hanswer]
  constructor
  · intro h p hp
    exact (hset p).mp (h p hp)
  · intro h p hp
    exact (hset p).mpr (h p hp)

/-- Inserting one item after the other. -/
def insertAll (items : List Bytes) (self : Bloom) : Run Bloom :=
  items.foldlM (fun bloom item => bloom.insert digest item) self

/-- A filter that has the given items, and only these, in it. -/
structure Holds (bloom : Bloom) (mBits : UInt64) (k : UInt32)
    (items : List Bytes) : Prop where
  width : bloom.mBits = mBits
  hashes : bloom.k = k
  positions : bloom.Represents (occupied digest mBits k items)

theorem empty_holds (mBits : UInt64) (k : UInt32) (hwide : 64 ≤ mBits.toNat)
    (hhashed : 1 ≤ k.toNat) : Holds digest (empty mBits k hwide hhashed) mBits k [] := by
  refine ⟨rfl, rfl, ?_⟩
  intro p
  simp [empty, occupied]

/-- Inserting never panics, and the filter then holds what it held and the new
items. -/
theorem insertAll_spec {mBits : UInt64} {k : UInt32} (items held : List Bytes) (self : Bloom)
    (hself : Holds digest self mBits k held) :
    ∃ last, insertAll digest items self = .ok last ∧
      Holds digest last mBits k (held ++ items) := by
  induction items generalizing held self with
  | nil => exact ⟨self, rfl, by rw [List.append_nil]; exact hself⟩
  | cons item rest ih =>
      obtain ⟨next, hinsert, hmBits, hk, hnext⟩ :=
        self.insert_spec digest item hself.positions
      have hholds : Holds digest next mBits k (held ++ [item]) := by
        refine ⟨hmBits.trans hself.width, hk.trans hself.hashes, ?_⟩
        intro p
        rw [hnext p, hself.width, hself.hashes]
        simp [occupied, or_and_right, exists_or]
      obtain ⟨last, hrun, hlast⟩ := ih (held ++ [item]) next hholds
      refine ⟨last, ?_, ?_⟩
      · rw [insertAll, List.foldlM_cons, hinsert, ok_bind]
        exact hrun
      · rw [List.append_assoc] at hlast
        exact hlast

variable {digest}

/-- What a filter answers, and that it answers. -/
theorem Holds.contains {self : Bloom} {mBits : UInt64} {k : UInt32} {items : List Bytes}
    (h : Holds digest self mBits k items) (item : Bytes) :
    ∃ answer, self.contains digest item = .ok answer ∧
      (answer = true ↔ Covered digest mBits k (occupied digest mBits k items) item) := by
  obtain ⟨answer, hrun, hanswer⟩ := self.contains_spec digest item h.positions
  rw [h.width, h.hashes] at hanswer
  exact ⟨answer, hrun, hanswer⟩

/-- Every item that was inserted is reported present. -/
theorem Holds.no_false_negative {self : Bloom} {mBits : UInt64} {k : UInt32} {items : List Bytes}
    (h : Holds digest self mBits k items) {item : Bytes} (hitem : item ∈ items) :
    self.contains digest item = .ok true := by
  obtain ⟨answer, hrun, hanswer⟩ := h.contains item
  rw [hrun, hanswer.mpr fun p hp => ⟨item, hitem, hp⟩]

/-- Filters with the same parameters and the same set of items answer alike. -/
theorem Holds.same_answers {self other : Bloom} {mBits : UInt64} {k : UInt32}
    {items items' : List Bytes} (h : Holds digest self mBits k items)
    (h' : Holds digest other mBits k items') (hsame : ∀ x, x ∈ items ↔ x ∈ items')
    (item : Bytes) : self.contains digest item = other.contains digest item := by
  have hoccupied : occupied digest mBits k items = occupied digest mBits k items' := by
    ext p
    simp [occupied, hsame]
  obtain ⟨answer, hrun, hanswer⟩ := h.contains item
  obtain ⟨answer', hrun', hanswer'⟩ := h'.contains item
  rw [hoccupied, ← hanswer'] at hanswer
  rw [hrun, hrun', Bool.eq_iff_iff.mpr hanswer]

/-- The assertions of `new` hold of what it returns, and it is empty. -/
theorem new_some {mBits : UInt64} {k : UInt32} {start : Bloom} (h : new mBits k = some start) :
    ∃ hwide hhashed, start = empty mBits k hwide hhashed := by
  unfold new at h
  split at h
  · rename_i hwide
    split at h
    · rename_i hhashed
      exact ⟨hwide, hhashed, (Option.some.inj h).symm⟩
    · cases h
  · cases h

variable (digest) in
/-- A filter that is built by inserts holds what was inserted. -/
theorem built_holds {mBits : UInt64} {k : UInt32} {start self : Bloom} {items : List Bytes}
    (hnew : new mBits k = some start) (hinsert : insertAll digest items start = .ok self) :
    Holds digest self mBits k items := by
  obtain ⟨hwide, hhashed, rfl⟩ := new_some hnew
  obtain ⟨last, hrun, hlast⟩ := insertAll_spec digest items [] _
    (empty_holds digest mBits k hwide hhashed)
  obtain rfl : last = self := Except.ok.inj (hrun.symm.trans hinsert)
  exact hlast

/-- The filter refines a set of positions. Whatever is inserted in whatever
order, nothing panics, every probed position is below the width and addresses a
word, and an item is reported present exactly if each of its positions is one
of some inserted item. So no inserted item is missed, and only the set of
inserted items counts. -/
theorem refines_positions (digest : Digest) (mBits : UInt64) (k : UInt32)
    (hwide : 64 ≤ mBits.toNat) (hhashed : 1 ≤ k.toNat) :
    (∀ y, ∀ p ∈ probes digest mBits k y,
        p.toNat < mBits.toNat ∧ p.toNat / 64 < wordsFor mBits) ∧
      ∃ start, new mBits k = some start ∧
        ∀ items, ∃ self, insertAll digest items start = .ok self ∧
          (∀ y, ∃ answer, self.contains digest y = .ok answer ∧
            (answer = true ↔ ∀ p ∈ probes digest mBits k y,
              ∃ x ∈ items, p ∈ probes digest mBits k x)) ∧
          (∀ x ∈ items, self.contains digest x = .ok true) ∧
          ∀ items' other, (∀ x, x ∈ items ↔ x ∈ items') →
            insertAll digest items' start = .ok other →
              ∀ y, self.contains digest y = other.contains digest y := by
  refine ⟨fun y => probes_in_range digest mBits k y hwide, _, new_eq mBits k hwide hhashed, ?_⟩
  intro items
  have hstart := empty_holds digest mBits k hwide hhashed
  obtain ⟨self, hrun, hself⟩ := insertAll_spec digest items [] _ hstart
  refine ⟨self, hrun, hself.contains, fun x hx => hself.no_false_negative hx, ?_⟩
  intro items' other hsame hrun' y
  have hother := built_holds digest (new_eq mBits k hwide hhashed) hrun'
  exact hself.same_answers hother hsame y

/-- A digest that tells short items apart: their bytes, padded. -/
def paddedDigest : Digest := fun item =>
  ⟨(item ++ List.replicate 16 0).take 16, by
    rw [List.length_take, List.length_append, List.length_replicate]
    omega⟩

/-- A width that is neither a power of two nor a multiple of 64. -/
theorem refines_positions_partialWord :
    (∀ y, ∀ p ∈ probes paddedDigest 100 3 y,
        p.toNat < (100 : UInt64).toNat ∧ p.toNat / 64 < wordsFor 100) ∧
      ∃ start, new 100 3 = some start ∧
        ∀ items, ∃ self, insertAll paddedDigest items start = .ok self ∧
          (∀ y, ∃ answer, self.contains paddedDigest y = .ok answer ∧
            (answer = true ↔ ∀ p ∈ probes paddedDigest 100 3 y,
              ∃ x ∈ items, p ∈ probes paddedDigest 100 3 x)) ∧
          (∀ x ∈ items, self.contains paddedDigest x = .ok true) ∧
          ∀ items' other, (∀ x, x ∈ items ↔ x ∈ items') →
            insertAll paddedDigest items' start = .ok other →
              ∀ y, self.contains paddedDigest y = other.contains paddedDigest y :=
  refines_positions paddedDigest 100 3 (by decide) (by decide)

end Bloom

end ShadeIndexer.Bytecode

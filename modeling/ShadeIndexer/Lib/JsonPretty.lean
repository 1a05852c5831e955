import ShadeIndexer.Lib.JsonLines

/-!
JSON texts with indentation, and texts one behind the other. The pretty writer
puts every item and every field on a line of its own, two spaces further in than
the bracket that opens them. The reader skips what the writer has put in.
-/

namespace ShadeIndexer.Lib.Json

variable {ν : Type}

def newLine (depth : Nat) : List Char := lineBreak :: List.replicate (2 * depth) ' '

mutual

def pretty (depth : Nat) : Value Int String → List Char
  | .null => write .null
  | .bool b => write (.bool b)
  | .number n => write (.number n)
  | .string s => write (.string s)
  | .array items => '[' :: prettyItems depth true items
  | .object fields => '{' :: prettyFields depth true fields

/-- The items from here on and the closing bracket, which stands at the depth. -/
def prettyItems (depth : Nat) (first : Bool) : List (Value Int String) → List Char
  | [] => (if first then [] else newLine depth) ++ [']']
  | v :: rest =>
    (if first then [] else [',']) ++ newLine (depth + 1) ++
      (pretty (depth + 1) v ++ prettyItems depth false rest)

/-- The fields from here on and the closing bracket. -/
def prettyFields (depth : Nat) (first : Bool) : List (String × Value Int String) → List Char
  | [] => (if first then [] else newLine depth) ++ ['}']
  | (key, v) :: rest =>
    (if first then [] else [',']) ++ newLine (depth + 1) ++
      (writeString key ++ ':' :: ' ' :: (pretty (depth + 1) v ++ prettyFields depth false rest))

end

theorem skipSpace_newLine (depth : Nat) (cs : List Char) :
    skipSpace (newLine depth ++ cs) = skipSpace cs := by
  have hspaces : ∀ c ∈ newLine depth, isSpace c = true := by
    intro c hc
    rcases List.mem_cons.mp hc with rfl | hc
    · decide
    · rw [List.eq_of_mem_replicate hc]
      decide
  exact List.dropWhile_append_of_pos hspaces

theorem skipSpace_blank (cs : List Char) : skipSpace (' ' :: cs) = skipSpace cs := rfl

variable (number : ℚ → ν)

/-- Space in front of a token does not matter. -/
theorem readValue_skip {cs cs' : List Char} (h : skipSpace cs = skipSpace cs') (n : Nat) :
    readValue number n cs = readValue number n cs' := by
  cases n with
  | zero => rw [readValue, readValue]
  | succ n => rw [readValue, readValue, h]

theorem readItems_skip {cs cs' : List Char} (h : skipSpace cs = skipSpace cs') (n : Nat) :
    readItems number n cs = readItems number n cs' := by
  cases n with
  | zero => rw [readItems, readItems]
  | succ n => rw [readItems, readItems, readValue_skip number h]

theorem readFields_skip {cs cs' : List Char} (h : skipSpace cs = skipSpace cs') (n : Nat) :
    readFields number n cs = readFields number n cs' := by
  cases n with
  | zero => rw [readFields, readFields]
  | succ n => rw [readFields, readFields, h]

theorem pretty_head (depth : Nat) (v : Value Int String) :
    ∃ c tail, pretty depth v = c :: tail ∧ isSpace c = false ∧ c ≠ ']' := by
  cases v with
  | null | bool b | number n | string s =>
      rw [pretty]
      exact write_head _
  | array items | object fields =>
      rw [pretty]
      exact ⟨_, _, rfl, by decide, by decide⟩

theorem skipSpace_pretty (depth : Nat) (v : Value Int String) (rest : List Char) :
    skipSpace (pretty depth v ++ rest) = pretty depth v ++ rest := by
  obtain ⟨c, tail, htext, hspace, -⟩ := pretty_head depth v
  rw [htext]
  exact skipSpace_cons hspace

theorem delimited_prettyItems (depth : Nat) (items : List (Value Int String)) (rest : List Char) :
    Delimited (prettyItems depth false items ++ rest) := by
  cases items with
  | nil | cons _ _ =>
      rintro c hc
      obtain rfl : _ = c := by simpa [prettyItems, newLine] using hc
      decide

theorem delimited_prettyFields (depth : Nat) (fields : List (String × Value Int String))
    (rest : List Char) : Delimited (prettyFields depth false fields ++ rest) := by
  cases fields with
  | nil | cons _ _ =>
      rintro c hc
      obtain rfl : _ = c := by simpa [prettyFields, newLine] using hc
      decide

/-- A comma and the next item, or the closing bracket. -/
theorem skipSpace_prettyItems (depth : Nat) (items : List (Value Int String)) (rest : List Char) :
    skipSpace (prettyItems depth false items ++ rest) =
      match items with
      | [] => ']' :: rest
      | v :: items =>
        ',' :: (newLine (depth + 1) ++ (pretty (depth + 1) v ++ prettyItems depth false items) ++
          rest) := by
  cases items with
  | nil =>
      simp only [prettyItems, Bool.false_eq_true, if_false, List.append_assoc]
      rw [skipSpace_newLine]
      exact skipSpace_cons (by decide)
  | cons v items =>
      simp only [prettyItems, Bool.false_eq_true, if_false, List.append_assoc, List.cons_append,
        List.nil_append]
      exact skipSpace_cons (by decide)

/-- A field behind the space in front of it. -/
def prettyField (depth : Nat) (key : String) (v : Value Int String)
    (fields : List (String × Value Int String)) : List Char :=
  writeString key ++ ':' :: ' ' :: (pretty (depth + 1) v ++ prettyFields depth false fields)

theorem prettyField_text (depth : Nat) (key : String) (v : Value Int String)
    (fields : List (String × Value Int String)) (rest : List Char) :
    prettyField depth key v fields ++ rest =
      quotationMark :: (key.toList.flatMap escape ++
        quotationMark :: ':' :: ' ' ::
          (pretty (depth + 1) v ++ (prettyFields depth false fields ++ rest))) := by
  simp [prettyField, writeString]

theorem skipSpace_prettyFields (depth : Nat) (fields : List (String × Value Int String))
    (rest : List Char) :
    skipSpace (prettyFields depth false fields ++ rest) =
      match fields with
      | [] => '}' :: rest
      | (key, v) :: fields =>
          ',' :: (newLine (depth + 1) ++ prettyField depth key v fields ++ rest) := by
  cases fields with
  | nil =>
      simp only [prettyFields, Bool.false_eq_true, if_false, List.append_assoc]
      rw [skipSpace_newLine]
      exact skipSpace_cons (by decide)
  | cons field fields =>
      obtain ⟨key, v⟩ := field
      simp only [prettyFields, prettyField, Bool.false_eq_true, if_false, List.append_assoc,
        List.cons_append, List.nil_append]
      exact skipSpace_cons (by decide)

theorem readValue_prettyArray {depth : Nat} {v : Value Int String}
    {items : List (Value Int String)} {n : Nat} {rest : List Char}
    (h : readItems number n (pretty (depth + 1) v ++ prettyItems depth false items ++ rest) =
      some (readBackItems number (v :: items), rest)) :
    readValue number (n + 1) (pretty depth (.array (v :: items)) ++ rest) =
      some (readBack number (.array (v :: items)), rest) := by
  obtain ⟨c, tail, hhead, hspace, hbracket⟩ := pretty_head (depth + 1) v
  have hskip := skipSpace_pretty (depth + 1) v (prettyItems depth false items ++ rest)
  rw [← List.append_assoc] at hskip
  have htext : pretty depth (.array (v :: items)) ++ rest =
      '[' :: (newLine (depth + 1) ++
        (pretty (depth + 1) v ++ prettyItems depth false items ++ rest)) := by
    simp [pretty, prettyItems]
  have hopen : (pretty (depth + 1) v ++ prettyItems depth false items ++ rest).head? ≠
      some ']' := by
    simpa [hhead] using hbracket
  have hread := readItems_skip number (skipSpace_newLine (depth + 1)
    (pretty (depth + 1) v ++ prettyItems depth false items ++ rest)) n
  rw [htext, readValue, skipSpace_cons (by decide)]
  simp only [skipSpace_newLine, hskip, if_neg hopen, hread, h]
  rfl

theorem readValue_prettyObject {depth : Nat} {key : String} {v : Value Int String}
    {fields : List (String × Value Int String)} {n : Nat} {rest : List Char}
    (hkeys : ((readBackFields number ((key, v) :: fields)).map Prod.fst).Nodup)
    (h : readFields number n (prettyField depth key v fields ++ rest) =
      some (readBackFields number ((key, v) :: fields), rest)) :
    readValue number (n + 1) (pretty depth (.object ((key, v) :: fields)) ++ rest) =
      some (readBack number (.object ((key, v) :: fields)), rest) := by
  have hset := setFields_nodup hkeys
  have hskip : skipSpace (prettyField depth key v fields ++ rest) =
      prettyField depth key v fields ++ rest := skipSpace_cons (by decide)
  have htext : pretty depth (.object ((key, v) :: fields)) ++ rest =
      '{' :: (newLine (depth + 1) ++ (prettyField depth key v fields ++ rest)) := by
    simp [pretty, prettyFields, prettyField]
  have hopen : (prettyField depth key v fields ++ rest).head? ≠ some '}' := by
    simp [prettyField, writeString, quotationMark]
  have hread := readFields_skip number (skipSpace_newLine (depth + 1)
    (prettyField depth key v fields ++ rest)) n
  rw [htext, readValue, skipSpace_cons (by decide)]
  simp only [skipSpace_newLine, hskip, if_neg hopen, hread, h, Option.map_some, hset]
  rfl

/-- A value without items is written as in a compact text. -/
theorem readValue_prettyScalar {v : Value Int String} (depth : Nat)
    (hscalar : pretty depth v = write v) (bound : Nat) (rest : List Char)
    (hbound : (pretty depth v).length ≤ bound) (hrest : Delimited rest)
    (hdistinct : (readBack number v).Distinct) :
    readValue number bound (pretty depth v ++ rest) = some (readBack number v, rest) := by
  rw [hscalar] at hbound ⊢
  exact readValue_write number v bound rest hbound hrest hdistinct

mutual

theorem readValue_pretty : ∀ (v : Value Int String) (depth bound : Nat) (rest : List Char),
    (pretty depth v).length ≤ bound → Delimited rest → (readBack number v).Distinct →
      readValue number bound (pretty depth v ++ rest) = some (readBack number v, rest)
  | v, depth, 0, rest, hbound, _, _ => by
      obtain ⟨c, tail, htext, -⟩ := pretty_head depth v
      simp [htext] at hbound
  | .null, depth, n + 1, rest, hbound, hrest, hdistinct =>
      readValue_prettyScalar number depth (by rw [pretty]) _ _ hbound hrest hdistinct
  | .bool _, depth, n + 1, rest, hbound, hrest, hdistinct =>
      readValue_prettyScalar number depth (by rw [pretty]) _ _ hbound hrest hdistinct
  | .number _, depth, n + 1, rest, hbound, hrest, hdistinct =>
      readValue_prettyScalar number depth (by rw [pretty]) _ _ hbound hrest hdistinct
  | .string _, depth, n + 1, rest, hbound, hrest, hdistinct =>
      readValue_prettyScalar number depth (by rw [pretty]) _ _ hbound hrest hdistinct
  | .array [], depth, n + 1, rest, hbound, hrest, hdistinct =>
      readValue_prettyScalar number depth (by simp [pretty, prettyItems, write, writeItems]) _ _
        hbound hrest hdistinct
  | .object [], depth, n + 1, rest, hbound, hrest, hdistinct =>
      readValue_prettyScalar number depth (by simp [pretty, prettyFields, write, writeFields]) _ _
        hbound hrest hdistinct
  | .array (v :: items), depth, n + 1, rest, hbound, _, hdistinct => by
      have hlength : (pretty (depth + 1) v ++ prettyItems depth false items).length ≤ n := by
        simp only [pretty, prettyItems, List.length_cons, List.length_append] at hbound ⊢
        omega
      exact readValue_prettyArray number
        (readItems_pretty items v depth n rest hlength hdistinct.1 hdistinct.2)
  | .object ((key, v) :: fields), depth, n + 1, rest, hbound, _, hdistinct => by
      have hlength : (prettyField depth key v fields).length ≤ n := by
        simp only [pretty, prettyFields, prettyField, List.length_cons, List.length_append]
          at hbound ⊢
        omega
      exact readValue_prettyObject number hdistinct.1
        (readFields_pretty fields key v depth n rest hlength hdistinct.2.1 hdistinct.2.2)

theorem readItems_pretty : ∀ (items : List (Value Int String)) (v : Value Int String)
    (depth bound : Nat) (rest : List Char),
    (pretty (depth + 1) v ++ prettyItems depth false items).length ≤ bound →
      (readBack number v).Distinct → DistinctItems (readBackItems number items) →
        readItems number bound (pretty (depth + 1) v ++ prettyItems depth false items ++ rest) =
          some (readBackItems number (v :: items), rest)
  | items, v, depth, 0, rest, hbound, _, _ => by
      obtain ⟨c, tail, htext, -⟩ := pretty_head (depth + 1) v
      simp [htext] at hbound
  | [], v, depth, n + 1, rest, hbound, hv, _ => by
      have hlength : (pretty (depth + 1) v).length ≤ n := by
        simp only [prettyItems, List.length_append, List.length_cons, List.length_nil] at hbound
        omega
      have hread := readValue_pretty v (depth + 1) n (prettyItems depth false [] ++ rest) hlength
        (delimited_prettyItems depth [] rest) hv
      rw [List.append_assoc, readItems, hread]
      simp [skipSpace_prettyItems, mapItems]
  | w :: items, v, depth, n + 1, rest, hbound, hv, hdistinct => by
      have hlengths : (pretty (depth + 1) v).length ≤ n ∧
          (pretty (depth + 1) w ++ prettyItems depth false items).length ≤ n := by
        simp only [prettyItems, newLine, List.length_append, List.length_cons, List.length_nil,
          Bool.false_eq_true, if_false] at hbound ⊢
        omega
      have hread := readValue_pretty v (depth + 1) n (prettyItems depth false (w :: items) ++ rest)
        hlengths.1 (delimited_prettyItems depth (w :: items) rest) hv
      have hrest := readItems_pretty items w depth n rest hlengths.2 hdistinct.1 hdistinct.2
      have hskip := readItems_skip number (skipSpace_newLine (depth + 1)
        (pretty (depth + 1) w ++ prettyItems depth false items ++ rest)) n
      rw [hrest] at hskip
      simp only [List.append_assoc] at hskip
      rw [List.append_assoc, readItems, hread]
      simp [skipSpace_prettyItems, hskip, mapItems]

theorem readFields_pretty : ∀ (fields : List (String × Value Int String)) (key : String)
    (v : Value Int String) (depth bound : Nat) (rest : List Char),
    (prettyField depth key v fields).length ≤ bound → (readBack number v).Distinct →
      DistinctFields (readBackFields number fields) →
        readFields number bound (prettyField depth key v fields ++ rest) =
          some (readBackFields number ((key, v) :: fields), rest)
  | fields, key, v, depth, 0, rest, hbound, _, _ => by
      simp [prettyField, writeString] at hbound
  | [], key, v, depth, n + 1, rest, hbound, hv, _ => by
      have hlength : (pretty (depth + 1) v).length ≤ n := by
        simp only [prettyField, List.length_append, List.length_cons] at hbound
        omega
      have hread := readValue_pretty v (depth + 1) n (prettyFields depth false [] ++ rest) hlength
        (delimited_prettyFields depth [] rest) hv
      rw [prettyField_text, readFields, skipSpace_cons (by decide)]
      simp [readString_write, skipSpace_cons, isSpace, readValue_skip number (skipSpace_blank _),
        hread, skipSpace_prettyFields, mapFields]
  | (next, w) :: fields, key, v, depth, n + 1, rest, hbound, hv, hdistinct => by
      have hlengths : (pretty (depth + 1) v).length ≤ n ∧
          (prettyField depth next w fields).length ≤ n := by
        simp only [prettyField, prettyFields, List.length_append, List.length_cons] at hbound ⊢
        omega
      have hread := readValue_pretty v (depth + 1) n
        (prettyFields depth false ((next, w) :: fields) ++ rest) hlengths.1
        (delimited_prettyFields depth ((next, w) :: fields) rest) hv
      have hrest := readFields_pretty fields next w depth n rest hlengths.2 hdistinct.1 hdistinct.2
      have hskip := readFields_skip number (skipSpace_newLine (depth + 1)
        (prettyField depth next w fields ++ rest)) n
      rw [hrest] at hskip
      rw [prettyField_text, readFields, skipSpace_cons (by decide)]
      simp [readString_write, skipSpace_cons, isSpace, readValue_skip number (skipSpace_blank _),
        hread, skipSpace_prettyFields, hskip, mapFields]

end

/-- One value after the other until nothing but space is left. -/
def readStream : Nat → List Char → Option (List (Value ν Units))
  | 0, _ => none
  | n + 1, cs =>
    if (skipSpace cs).isEmpty then some []
    else do
      let (v, rest) ← readValue number n cs
      let values ← readStream n rest
      pure (v :: values)

def readAll (cs : List Char) : Option (List (Value ν Units)) :=
  readStream number (cs.length + 1) cs

/-- The text is read as the value, up to where it is delimited. -/
structure Spells (text : List Char) (v : Value Int String) : Prop where
  starts : ∃ c tail, text = c :: tail ∧ isSpace c = false
  reads : ∀ bound rest, text.length ≤ bound → Delimited rest →
    readValue number bound (text ++ rest) = some (readBack number v, rest)

theorem spells_write {v : Value Int String} (h : v.Distinct) : Spells number (write v) v where
  starts := by
    obtain ⟨c, tail, htext, hspace, -⟩ := write_head v
    exact ⟨c, tail, htext, hspace⟩
  reads := fun bound rest hbound hrest =>
    readValue_write number v bound rest hbound hrest (h.map utf16_injective)

theorem spells_pretty {v : Value Int String} (depth : Nat) (h : v.Distinct) :
    Spells number (pretty depth v) v where
  starts := by
    obtain ⟨c, tail, htext, hspace, -⟩ := pretty_head depth v
    exact ⟨c, tail, htext, hspace⟩
  reads := fun bound rest hbound hrest =>
    readValue_pretty number v depth bound rest hbound hrest (h.map utf16_injective)

/-- A text spells one value. -/
theorem Spells.unique {text : List Char} {v w : Value Int String} (hv : Spells number text v)
    (hw : Spells number text w) : readBack number v = readBack number w := by
  have hend : Delimited [] := by
    intro c hc
    cases hc
  have hread := hv.reads text.length [] (le_refl _) hend
  rw [hw.reads text.length [] (le_refl _) hend] at hread
  exact (Prod.mk.inj (Option.some.inj hread)).1.symm

theorem readStream_lineBreak (n : Nat) (cs : List Char) :
    readStream number n (lineBreak :: cs) = readStream number n cs := by
  have hskip : skipSpace (lineBreak :: cs) = skipSpace cs := skipSpace_newLine 0 cs
  cases n with
  | zero => rfl
  | succ n => rw [readStream, readStream, hskip, readValue_skip number hskip]

/-- Whatever the layout of each text is, a stream of texts is read as their values. -/
theorem readStream_unlines {ι : Type} {text : ι → List Char} {value : ι → Value Int String}
    {docs : List ι} (h : ∀ doc ∈ docs, Spells number (text doc) (value doc)) (bound : Nat)
    (hbound : (unlines (docs.map text)).length < bound) :
    readStream number bound (unlines (docs.map text)) =
      some (docs.map fun doc => readBack number (value doc)) := by
  induction docs generalizing bound with
  | nil =>
      obtain ⟨n, rfl⟩ := Nat.exists_eq_add_one_of_ne_zero (Nat.ne_of_gt hbound)
      rfl
  | cons doc rest ih =>
      obtain ⟨n, rfl⟩ : ∃ n, bound = n + 1 := ⟨bound - 1, by omega⟩
      have hdoc := h doc (List.mem_cons_self ..)
      obtain ⟨c, tail, hhead, hspace⟩ := hdoc.starts
      have htext : unlines ((doc :: rest).map text) =
          text doc ++ lineBreak :: unlines (rest.map text) := by
        simp [unlines]
      rw [htext, List.length_append, List.length_cons] at hbound
      have hread := hdoc.reads n (lineBreak :: unlines (rest.map text)) (by omega) (by
        rintro d hd
        obtain rfl : lineBreak = d := by simpa using hd
        decide)
      have hrest := ih (fun other hother => h other (List.mem_cons_of_mem _ hother)) n (by omega)
      have hsome : (skipSpace (text doc ++ lineBreak :: unlines (rest.map text))).isEmpty =
          false := by
        rw [hhead, List.cons_append, skipSpace_cons hspace]
        rfl
      rw [htext, readStream, hsome, hread]
      simp [readStream_lineBreak, hrest]

theorem readAll_unlines {ι : Type} {text : ι → List Char} {value : ι → Value Int String}
    {docs : List ι} (h : ∀ doc ∈ docs, Spells number (text doc) (value doc)) :
    readAll number (unlines (docs.map text)) =
      some (docs.map fun doc => readBack number (value doc)) :=
  readStream_unlines number h _ (Nat.lt_succ_self _)

end ShadeIndexer.Lib.Json

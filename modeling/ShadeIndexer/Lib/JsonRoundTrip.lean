import Mathlib.Data.List.Nodup
import ShadeIndexer.Lib.Digits
import ShadeIndexer.Lib.Json

/-!
Reading a written JSON text. What the writer writes of a value is read back as
the same value, with its strings in UTF-16 and its numbers as the reader takes
them, as long as no object repeats a key.
-/

namespace ShadeIndexer.Lib.Json

open Digits

variable {ν ν' σ σ' : Type}

/-- No code unit of a character is that of another one: a unit outside the
surrogates is a character, and a high surrogate goes with the next unit. -/
theorem encodeChar_append {c d : Char} {rest tail : Units}
    (h : encodeChar c ++ rest = encodeChar d ++ tail) : c = d ∧ rest = tail := by
  have hc : c.toNat < 0xd800 ∨ 0xdfff < c.toNat ∧ c.toNat < 0x110000 := c.valid
  have hd : d.toNat < 0xd800 ∨ 0xdfff < d.toNat ∧ d.toNat < 0x110000 := d.valid
  have unit {m n : Nat} (hm : m < 0x10000) (hn : n < 0x10000)
      (heq : UInt16.ofNat m = UInt16.ofNat n) : m = n := by
    have hnat := congrArg UInt16.toNat heq
    rwa [UInt16.toNat_ofNat_of_lt' hm, UInt16.toNat_ofNat_of_lt' hn] at hnat
  unfold encodeChar at h
  split_ifs at h with h1 h2 h2
  · obtain ⟨hunit, hrest⟩ := List.cons.inj h
    exact ⟨Char.toNat_inj.mp (unit h1 h2 hunit), hrest⟩
  · obtain ⟨hunit, -⟩ := List.cons.inj h
    have := unit h1 (by omega) hunit
    omega
  · obtain ⟨hunit, -⟩ := List.cons.inj h
    have := unit (by omega) h2 hunit
    omega
  · obtain ⟨hhigh, hmore⟩ := List.cons.inj h
    obtain ⟨hlow, hrest⟩ := List.cons.inj hmore
    have hhigh := unit (by omega) (by omega) hhigh
    have hlow := unit (by omega) (by omega) hlow
    exact ⟨Char.toNat_inj.mp (by omega), hrest⟩

theorem encodeChar_ne_nil (c : Char) : encodeChar c ≠ [] := by
  unfold encodeChar
  split <;> simp

theorem utf16_injective : Function.Injective utf16 := by
  have chars : ∀ cs ds : List Char, cs.flatMap encodeChar = ds.flatMap encodeChar → cs = ds := by
    intro cs
    induction cs with
    | nil =>
        intro ds h
        cases ds with
        | nil => rfl
        | cons d ds => simp [encodeChar_ne_nil] at h
    | cons c cs ih =>
        intro ds h
        cases ds with
        | nil => simp [encodeChar_ne_nil] at h
        | cons d ds =>
            rw [List.flatMap_cons, List.flatMap_cons] at h
            obtain ⟨rfl, hrest⟩ := encodeChar_append h
            rw [ih ds hrest]
  intro s t h
  exact String.toList_inj.mp (chars s.toList t.toList h)

theorem mapFields_keys (f : ν → ν') (g : σ → σ') (fields : List (σ × Value ν σ)) :
    (mapFields f g fields).map Prod.fst = (fields.map Prod.fst).map g := by
  induction fields with
  | nil => rfl
  | cons field rest ih => simp [mapFields, ih]

theorem lookup_mapFields [BEq σ] [LawfulBEq σ] [BEq σ'] [LawfulBEq σ'] {f : ν → ν'} {g : σ → σ'}
    (hg : Function.Injective g) (fields : List (σ × Value ν σ)) (key : σ) :
    (mapFields f g fields).lookup (g key) = (fields.lookup key).map (Value.map f g) := by
  induction fields with
  | nil => rfl
  | cons field rest ih =>
      obtain ⟨name, v⟩ := field
      by_cases hname : key = name
      · simp [mapFields, hname]
      · have hmapped : g key ≠ g name := fun h => hname (hg h)
        simp [mapFields, List.lookup_cons, beq_false_of_ne hname, beq_false_of_ne hmapped, ih]

mutual

theorem Value.Distinct.map {f : ν → ν'} {g : σ → σ'} (hg : Function.Injective g) :
    ∀ {v : Value ν σ}, v.Distinct → (v.map f g).Distinct
  | .null, _ => trivial
  | .bool _, _ => trivial
  | .number _, _ => trivial
  | .string _, _ => trivial
  | .array _, h => distinctItems_map hg h
  | .object fields, h =>
      ⟨(mapFields_keys f g fields).symm ▸ List.Nodup.map hg h.1, distinctFields_map hg h.2⟩

theorem distinctItems_map {f : ν → ν'} {g : σ → σ'} (hg : Function.Injective g) :
    ∀ {items : List (Value ν σ)}, DistinctItems items → DistinctItems (mapItems f g items)
  | [], _ => trivial
  | _ :: _, h => ⟨Value.Distinct.map hg h.1, distinctItems_map hg h.2⟩

theorem distinctFields_map {f : ν → ν'} {g : σ → σ'} (hg : Function.Injective g) :
    ∀ {fields : List (σ × Value ν σ)}, DistinctFields fields → DistinctFields (mapFields f g fields)
  | [], _ => trivial
  | _ :: _, h => ⟨Value.Distinct.map hg h.1, distinctFields_map hg h.2⟩

end

/-- No number goes on into `rest`. -/
def Delimited (rest : List Char) : Prop :=
  ∀ c ∈ rest.head?, c.isDigit = false ∧ c ≠ '.' ∧ c ≠ 'e' ∧ c ≠ 'E'

theorem Delimited.takeWhile {rest : List Char} (h : Delimited rest) :
    rest.takeWhile Char.isDigit = [] := by
  cases rest with
  | nil => rfl
  | cons c rest => simp [(h c rfl).1]

theorem Delimited.dropWhile {rest : List Char} (h : Delimited rest) :
    rest.dropWhile Char.isDigit = rest := by
  cases rest with
  | nil => rfl
  | cons c rest => simp [(h c rfl).1]

theorem readDigits_toDigits (n : Nat) {rest : List Char} (h : Delimited rest) :
    readDigits (Nat.toDigits 10 n ++ rest) = some (Nat.toDigits 10 n, rest) := by
  have htake : (Nat.toDigits 10 n ++ rest).takeWhile Char.isDigit = Nat.toDigits 10 n := by
    rw [List.takeWhile_append_of_pos (isDigit_toDigits n), h.takeWhile, List.append_nil]
  have hdrop : (Nat.toDigits 10 n ++ rest).dropWhile Char.isDigit = rest := by
    rw [List.dropWhile_append_of_pos (isDigit_toDigits n), h.dropWhile]
  simp [readDigits, htake, hdrop]

theorem readFraction_none {rest : List Char} (h : Delimited rest) :
    readFraction rest = some (0, rest) := by
  cases rest with
  | nil => rfl
  | cons c rest => simp [readFraction, (h c rfl).2.1]

theorem readExponent_none {rest : List Char} (h : Delimited rest) :
    readExponent rest = some (0, rest) := by
  cases rest with
  | nil => rfl
  | cons c rest => simp [readExponent, (h c rfl).2.2]

theorem readMagnitude_toDigits (n : Nat) {rest : List Char} (h : Delimited rest) :
    readMagnitude (Nat.toDigits 10 n ++ rest) = some ((n : ℚ), rest) := by
  have hleading : ¬ ((Nat.toDigits 10 n).head? = some '0' ∧ (Nat.toDigits 10 n).length ≠ 1) := by
    rintro ⟨hhead, hlength⟩
    rcases Nat.eq_zero_or_pos n with rfl | hpos
    · exact hlength rfl
    · exact head_toDigits hpos hhead
  simp only [readMagnitude, readDigits_toDigits n h, Option.bind_eq_bind, Option.bind_some,
    if_neg hleading, readFraction_none h, readExponent_none h, Nat.ofDigitChars_ten_toDigits]
  simp

/-- A number starts with a digit or with a minus sign. -/
theorem writeNumber_head (n : Int) :
    ∃ c tail, writeNumber n = c :: tail ∧ (c.isDigit = true ∨ c = '-') := by
  unfold writeNumber
  split
  · exact ⟨_, _, rfl, Or.inr rfl⟩
  · cases hdigits : Nat.toDigits 10 n.natAbs with
    | nil => exact absurd hdigits Nat.toDigits_ne_nil
    | cons c tail =>
        exact ⟨c, tail, rfl, Or.inl (isDigit_toDigits n.natAbs c (by simp [hdigits]))⟩

theorem readNumber_write (n : Int) {rest : List Char} (h : Delimited rest) :
    readNumber (writeNumber n ++ rest) = some ((n : ℚ), rest) := by
  have hmagnitude := readMagnitude_toDigits n.natAbs h
  rcases lt_or_ge n 0 with hneg | hpos
  · have habs : -(n.natAbs : ℚ) = n := by
      rw [← Int.cast_natCast, Int.ofNat_natAbs_of_nonpos (Int.le_of_lt hneg)]
      simp
    rw [writeNumber, if_pos hneg, List.cons_append, readNumber, if_pos rfl, hmagnitude,
      Option.map_some, habs]
  · have habs : (n.natAbs : ℚ) = n := by
      rw [← Int.cast_natCast, Int.natAbs_of_nonneg hpos]
    have hwritten : writeNumber n = Nat.toDigits 10 n.natAbs := if_neg (Int.not_lt.mpr hpos)
    cases hdigits : Nat.toDigits 10 n.natAbs with
    | nil => exact absurd hdigits Nat.toDigits_ne_nil
    | cons c tail =>
        have hdigit : c.isDigit = true := isDigit_toDigits n.natAbs c (by simp [hdigits])
        have hsign : c ≠ '-' := by
          rintro rfl
          exact absurd hdigit (by decide)
        rw [hwritten, hdigits, List.cons_append, readNumber, if_neg hsign, ← List.cons_append,
          ← hdigits, hmagnitude, habs]

theorem hexValue_digitChar : ∀ n < 16, hexValue (Nat.digitChar n) = some n := by decide

theorem hexUnit_control {n : Nat} (h : n < 32) :
    hexUnit '0' '0' (Nat.digitChar (n / 16)) (Nat.digitChar (n % 16)) = some (UInt16.ofNat n) := by
  have hzero : hexValue '0' = some 0 := rfl
  have hhigh := hexValue_digitChar (n / 16) (by omega)
  have hlow := hexValue_digitChar (n % 16) (by omega)
  have hsum : ((0 * 16 + 0) * 16 + n / 16) * 16 + n % 16 = n := by omega
  simp only [hexUnit, hzero, hhigh, hlow, Option.bind_eq_bind, Option.bind_some, hsum]
  rfl

theorem encodeChar_control {c : Char} (h : c.toNat < 0x10000) :
    encodeChar c = [UInt16.ofNat c.toNat] := if_pos h

theorem reverseSolidus_ne_quotationMark : reverseSolidus ≠ quotationMark := by decide

/-- A short escape is read back as the character it stands for. -/
theorem readString_short {e : Char} {unit : UInt16} (hletter : e ≠ 'u')
    (hunit : unescape e = some unit) {rest tail : List Char} {units : Units}
    (hread : readString tail = some (units, rest)) :
    readString (reverseSolidus :: e :: tail) = some (unit :: units, rest) := by
  rw [readString.eq_def]
  simp [reverseSolidus_ne_quotationMark, hletter, hunit, hread]

theorem readString_escape (c : Char) {rest tail : List Char} {units : Units}
    (hread : readString tail = some (units, rest)) :
    readString (escape c ++ tail) = some (encodeChar c ++ units, rest) := by
  have short (e : Char) (unit : UInt16) (hletter : e ≠ 'u') (hunit : unescape e = some unit)
      (hcode : encodeChar c = [unit]) :
      readString ([reverseSolidus, e] ++ tail) = some (encodeChar c ++ units, rest) := by
    rw [hcode]
    exact readString_short hletter hunit hread
  have code {n : Nat} (h : c.toNat = n) (hn : n < 0x10000) : encodeChar c = [UInt16.ofNat n] := by
    rw [encodeChar_control (h ▸ hn), h]
  unfold escape
  split_ifs with h1 h2 h3 h4 h5 h6 h7 h8
  · exact short quotationMark 0x22 (by decide) rfl (h1 ▸ rfl)
  · exact short reverseSolidus 0x5c (by decide) rfl (h2 ▸ rfl)
  · exact short 'b' 8 (by decide) rfl (code h3 (by decide))
  · exact short 't' 9 (by decide) rfl (code h4 (by decide))
  · exact short 'n' 10 (by decide) rfl (code h5 (by decide))
  · exact short 'f' 12 (by decide) rfl (code h6 (by decide))
  · exact short 'r' 13 (by decide) rfl (code h7 (by decide))
  · rw [encodeChar_control (by omega)]
    simp [readString, reverseSolidus_ne_quotationMark, hexUnit_control h8, hread]
  · rw [List.singleton_append, readString.eq_def]
    simp [h1, h2, h8, hread]

theorem readString_write (s : String) (rest : List Char) :
    readString (s.toList.flatMap escape ++ quotationMark :: rest) = some (utf16 s, rest) := by
  unfold utf16
  induction s.toList with
  | nil =>
      rw [List.flatMap_nil, List.nil_append, readString.eq_def]
      simp
  | cons c cs ih =>
      rw [List.flatMap_cons, List.append_assoc, List.flatMap_cons]
      exact readString_escape c ih

theorem foldl_setField [DecidableEq σ] (set fields : List (σ × Value ν σ))
    (h : ((set ++ fields).map Prod.fst).Nodup) :
    fields.foldl (fun set field => setField set field.1 field.2) set = set ++ fields := by
  induction fields generalizing set with
  | nil => rw [List.foldl_nil, List.append_nil]
  | cons field rest ih =>
      have hfresh : field.1 ∉ set.map Prod.fst := by
        rw [List.map_append, List.map_cons, List.nodup_append] at h
        intro hmem
        exact h.2.2 _ hmem _ (List.mem_cons_self ..) rfl
      have hassoc : set ++ field :: rest = (set ++ [field]) ++ rest := by simp
      rw [List.foldl_cons, setField, if_neg hfresh, ih _ (hassoc ▸ h), hassoc]

theorem setFields_nodup [DecidableEq σ] {fields : List (σ × Value ν σ)}
    (h : (fields.map Prod.fst).Nodup) : setFields fields = fields :=
  foldl_setField [] fields h

theorem skipSpace_cons {c : Char} {rest : List Char} (h : isSpace c = false) :
    skipSpace (c :: rest) = c :: rest := by
  simp [skipSpace, h]

/-- No other token starts like a number. -/
theorem number_start {c : Char} (h : c.isDigit = true ∨ c = '-') :
    isSpace c = false ∧ c ≠ quotationMark ∧ c ≠ '[' ∧ c ≠ '{' ∧ c ≠ 'n' ∧ c ≠ 't' ∧ c ≠ 'f' ∧
      c ≠ ']' := by
  rcases h with hdigit | rfl
  · obtain ⟨hlow, hhigh⟩ := Char.isDigit_iff_toNat.mp hdigit
    have hrange : 48 ≤ c.toNat ∧ c.toNat ≤ 57 := ⟨hlow, hhigh⟩
    have hne (d : Char) (hd : ¬ (48 ≤ d.toNat ∧ d.toNat ≤ 57)) : c ≠ d := by
      rintro rfl
      exact hd hrange
    have hspace : isSpace c = false := by
      simp only [isSpace, hne ' ' (by decide), decide_false, Bool.false_or, Bool.or_eq_false_iff,
        decide_eq_false_iff_not]
      omega
    exact ⟨hspace, hne _ (by decide), hne _ (by decide), hne _ (by decide), hne _ (by decide),
      hne _ (by decide), hne _ (by decide), hne _ (by decide)⟩
  · decide

/-- The first character of a written value is not a space, and no bracket that
closes. -/
theorem write_head (v : Value Int String) :
    ∃ c tail, write v = c :: tail ∧ isSpace c = false ∧ c ≠ ']' := by
  cases v with
  | null | array _ | object _ => exact ⟨_, _, rfl, by decide, by decide⟩
  | bool b => cases b <;> exact ⟨_, _, rfl, by decide, by decide⟩
  | string _ => exact ⟨_, _, rfl, by decide, by decide⟩
  | number n =>
      obtain ⟨c, tail, hwrite, hdigit⟩ := writeNumber_head n
      obtain ⟨hspace, -, -, -, -, -, -, hbracket⟩ := number_start hdigit
      exact ⟨c, tail, hwrite, hspace, hbracket⟩

theorem delimited_items (items : List (Value Int String)) (rest : List Char) :
    Delimited (writeItems false items ++ rest) := by
  cases items with
  | nil | cons _ _ =>
      rintro c hc
      obtain rfl : _ = c := by simpa [writeItems] using hc
      decide

theorem delimited_fields (fields : List (String × Value Int String)) (rest : List Char) :
    Delimited (writeFields false fields ++ rest) := by
  cases fields with
  | nil | cons _ _ =>
      rintro c hc
      obtain rfl : _ = c := by simpa [writeFields] using hc
      decide

theorem writeFields_first (key : String) (v : Value Int String)
    (fields : List (String × Value Int String)) (rest : List Char) :
    writeFields true ((key, v) :: fields) ++ rest =
      quotationMark :: (key.toList.flatMap escape ++
        quotationMark :: ':' :: (write v ++ (writeFields false fields ++ rest))) := by
  simp [writeFields, writeString]

theorem writeFields_next (key : String) (v : Value Int String)
    (fields : List (String × Value Int String)) :
    writeFields false ((key, v) :: fields) = ',' :: writeFields true ((key, v) :: fields) := by
  simp [writeFields]

variable (number : ℚ → ν)

/-- What the reader makes of a written value. -/
abbrev readBack (v : Value Int String) : Value ν Units := v.map (fun n : Int => number n) utf16

abbrev readBackItems (items : List (Value Int String)) : List (Value ν Units) :=
  mapItems (fun n : Int => number n) utf16 items

abbrev readBackFields (fields : List (String × Value Int String)) :
    List (Units × Value ν Units) :=
  mapFields (fun n : Int => number n) utf16 fields

/-- A number is read where a value is due, since no other value starts like it. -/
theorem readValue_number (k : Int) (n : Nat) {rest : List Char} (h : Delimited rest) :
    readValue number (n + 1) (writeNumber k ++ rest) = some (.number (number k), rest) := by
  have hread := readNumber_write k h
  obtain ⟨c, tail, hwrite, hstart⟩ := writeNumber_head k
  obtain ⟨hspace, hquote, hbracket, hbrace, hnull, htrue, hfalse, -⟩ := number_start hstart
  rw [hwrite] at hread ⊢
  rw [List.cons_append] at hread ⊢
  rw [readValue, skipSpace_cons hspace]
  simp [hquote, hbracket, hbrace, hnull, htrue, hfalse, hread]

/-- An array is read once its items are, since what follows the bracket does not
close it. -/
theorem readValue_array {v : Value Int String} {items : List (Value Int String)} {n : Nat}
    {rest : List Char}
    (h : readItems number n (write v ++ writeItems false items ++ rest) =
      some (readBackItems number (v :: items), rest)) :
    readValue number (n + 1) (write (.array (v :: items)) ++ rest) =
      some (readBack number (.array (v :: items)), rest) := by
  obtain ⟨c, tail, hwrite, hspace, hbracket⟩ := write_head v
  have hskip : skipSpace (write v ++ writeItems false items ++ rest) =
      write v ++ writeItems false items ++ rest := by
    rw [hwrite]
    exact skipSpace_cons hspace
  have hopen : (write v ++ writeItems false items ++ rest).head? ≠ some ']' := by
    simpa [hwrite] using hbracket
  have htext : writeItems true (v :: items) = write v ++ writeItems false items := by
    simp [writeItems]
  rw [write, htext, List.cons_append, readValue, skipSpace_cons (by decide)]
  simp only [hskip, if_neg hopen, h]
  rfl

/-- An object is read once its fields are, and keeps them if no key comes twice. -/
theorem readValue_object {key : String} {v : Value Int String}
    {fields : List (String × Value Int String)} {n : Nat} {rest : List Char}
    (hkeys : ((readBackFields number ((key, v) :: fields)).map Prod.fst).Nodup)
    (h : readFields number n (writeFields true ((key, v) :: fields) ++ rest) =
      some (readBackFields number ((key, v) :: fields), rest)) :
    readValue number (n + 1) (write (.object ((key, v) :: fields)) ++ rest) =
      some (readBack number (.object ((key, v) :: fields)), rest) := by
  have hset := setFields_nodup hkeys
  have hskip : skipSpace (writeFields true ((key, v) :: fields) ++ rest) =
      writeFields true ((key, v) :: fields) ++ rest := skipSpace_cons (by decide)
  have hopen : (writeFields true ((key, v) :: fields) ++ rest).head? ≠ some '}' := by
    simp [writeFields, writeString, quotationMark]
  rw [write, List.cons_append, readValue, skipSpace_cons (by decide)]
  simp only [hskip, if_neg hopen, h, Option.map_some, hset]
  rfl

mutual

theorem readValue_write : ∀ (v : Value Int String) (bound : Nat) (rest : List Char),
    (write v).length ≤ bound → Delimited rest → (readBack number v).Distinct →
      readValue number bound (write v ++ rest) = some (readBack number v, rest)
  | v, 0, rest, hbound, _, _ => by
      obtain ⟨c, tail, hwrite, -⟩ := write_head v
      simp [hwrite] at hbound
  | .null, n + 1, rest, _, _, _ => by
      rw [write, List.cons_append, readValue, skipSpace_cons (by decide)]
      simp [keyword, quotationMark, Value.map, List.dropPrefix?]
  | .bool true, n + 1, rest, _, _, _ => by
      rw [write, List.cons_append, readValue, skipSpace_cons (by decide)]
      simp [keyword, quotationMark, Value.map, List.dropPrefix?]
  | .bool false, n + 1, rest, _, _, _ => by
      rw [write, List.cons_append, readValue, skipSpace_cons (by decide)]
      simp [keyword, quotationMark, Value.map, List.dropPrefix?]
  | .number k, n + 1, rest, _, hrest, _ => by
      rw [write, readValue_number number k n hrest, readBack, Value.map]
  | .string s, n + 1, rest, _, _, _ => by
      rw [write, writeString, List.cons_append, readValue, skipSpace_cons (by decide)]
      simp [readString_write, Value.map]
  | .array [], n + 1, rest, _, _, _ => by
      rw [write, List.cons_append, readValue, skipSpace_cons (by decide)]
      simp [writeItems, skipSpace_cons, isSpace, quotationMark, Value.map, mapItems]
  | .array (v :: items), n + 1, rest, hbound, _, hdistinct => by
      have hlength : (write v ++ writeItems false items).length ≤ n := by
        simpa [write, writeItems] using hbound
      exact readValue_array number
        (readItems_write items v n rest hlength hdistinct.1 hdistinct.2)
  | .object [], n + 1, rest, _, _, _ => by
      rw [write, List.cons_append, readValue, skipSpace_cons (by decide)]
      simp [writeFields, skipSpace_cons, isSpace, quotationMark, Value.map, mapFields]
  | .object ((key, v) :: fields), n + 1, rest, hbound, _, hdistinct => by
      have hlength : (writeFields true ((key, v) :: fields)).length ≤ n := by
        simpa [write] using hbound
      exact readValue_object number hdistinct.1
        (readFields_write fields key v n rest hlength hdistinct.2.1 hdistinct.2.2)

theorem readItems_write : ∀ (items : List (Value Int String)) (v : Value Int String)
    (bound : Nat) (rest : List Char),
    (write v ++ writeItems false items).length ≤ bound → (readBack number v).Distinct →
      DistinctItems (readBackItems number items) →
        readItems number bound (write v ++ writeItems false items ++ rest) =
          some (readBackItems number (v :: items), rest)
  | items, v, 0, rest, hbound, _, _ => by
      obtain ⟨c, tail, hwrite, -⟩ := write_head v
      simp [hwrite] at hbound
  | [], v, n + 1, rest, hbound, hv, _ => by
      have hlength : (write v).length ≤ n := by
        simpa [writeItems] using hbound
      have hread := readValue_write v n (writeItems false [] ++ rest) hlength
        (delimited_items [] rest) hv
      rw [List.append_assoc, readItems, hread]
      simp [writeItems, skipSpace_cons, isSpace, mapItems]
  | w :: items, v, n + 1, rest, hbound, hv, hdistinct => by
      have hlengths : (write v).length ≤ n ∧ (write w ++ writeItems false items).length ≤ n := by
        simp only [writeItems, List.length_append, List.length_cons, List.length_nil,
          Bool.false_eq_true, if_false] at hbound ⊢
        omega
      have hread := readValue_write v n (writeItems false (w :: items) ++ rest) hlengths.1
        (delimited_items (w :: items) rest) hv
      have hrest := readItems_write items w n rest hlengths.2 hdistinct.1 hdistinct.2
      rw [List.append_assoc] at hrest
      rw [List.append_assoc, readItems, hread]
      simp [writeItems, skipSpace_cons, isSpace, hrest, mapItems]

theorem readFields_write : ∀ (fields : List (String × Value Int String)) (key : String)
    (v : Value Int String) (bound : Nat) (rest : List Char),
    (writeFields true ((key, v) :: fields)).length ≤ bound → (readBack number v).Distinct →
      DistinctFields (readBackFields number fields) →
        readFields number bound (writeFields true ((key, v) :: fields) ++ rest) =
          some (readBackFields number ((key, v) :: fields), rest)
  | fields, key, v, 0, rest, hbound, _, _ => by
      simp [writeFields, writeString] at hbound
  | [], key, v, n + 1, rest, hbound, hv, _ => by
      have hlength : (write v).length ≤ n := by
        have htotal := congrArg List.length (writeFields_first key v [] [])
        simp only [List.append_nil, List.length_append, List.length_cons] at htotal
        omega
      have hread := readValue_write v n (writeFields false [] ++ rest) hlength
        (delimited_fields [] rest) hv
      have hclose : skipSpace (writeFields false [] ++ rest) = '}' :: rest := by
        simp [writeFields, skipSpace_cons, isSpace]
      rw [writeFields_first, readFields, skipSpace_cons (by decide)]
      simp [readString_write, skipSpace_cons, isSpace, hread, hclose, mapFields]
  | (next, w) :: fields, key, v, n + 1, rest, hbound, hv, hdistinct => by
      have hlengths : (write v).length ≤ n ∧
          (writeFields true ((next, w) :: fields)).length ≤ n := by
        have htotal := congrArg List.length (writeFields_first key v ((next, w) :: fields) [])
        simp only [List.append_nil, List.length_append, List.length_cons, writeFields_next]
          at htotal
        omega
      have hread := readValue_write v n (writeFields false ((next, w) :: fields) ++ rest)
        hlengths.1 (delimited_fields ((next, w) :: fields) rest) hv
      have hrest := readFields_write fields next w n rest hlengths.2 hdistinct.1 hdistinct.2
      have hcomma : skipSpace (writeFields false ((next, w) :: fields) ++ rest) =
          ',' :: (writeFields true ((next, w) :: fields) ++ rest) := by
        simp [writeFields_next, skipSpace_cons, isSpace]
      rw [writeFields_first, readFields, skipSpace_cons (by decide)]
      simp [readString_write, skipSpace_cons, isSpace, hread, hcomma, hrest, mapFields]

end

theorem read_write (v : Value Int String) (h : v.Distinct) :
    read number (write v) = some (readBack number v) := by
  have hend : Delimited [] := by simp [Delimited]
  have hread := readValue_write number v ((write v).length + 1) [] (Nat.le_succ _) hend
    (h.map utf16_injective)
  rw [List.append_nil] at hread
  rw [read, hread]
  rfl

end ShadeIndexer.Lib.Json

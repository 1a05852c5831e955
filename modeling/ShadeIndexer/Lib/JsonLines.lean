import Mathlib.Data.Rat.Cast.CharZero
import ShadeIndexer.Lib.JsonRoundTrip

/-!
JSON texts one to a line. The compact writer emits no control character, so that
the line breaks behind the texts are the only ones, and the texts are found again
by splitting at them. A text determines its value.
-/

namespace ShadeIndexer.Lib.Json

/-- Neither a line break nor any other control character. -/
def Printable (text : List Char) : Prop := ∀ c ∈ text, 32 ≤ c.toNat

instance (text : List Char) : Decidable (Printable text) :=
  List.decidableBAll (fun c : Char => 32 ≤ c.toNat) text

theorem Printable.append {first second : List Char} (hfirst : Printable first)
    (hsecond : Printable second) : Printable (first ++ second) := by
  intro c hc
  rcases List.mem_append.mp hc with h | h
  · exact hfirst c h
  · exact hsecond c h

theorem Printable.cons {c : Char} {text : List Char} (hc : 32 ≤ c.toNat)
    (htext : Printable text) : Printable (c :: text) := by
  intro d hd
  rcases List.mem_cons.mp hd with rfl | h
  · exact hc
  · exact htext d h

theorem printable_digitChar : ∀ n < 16, 32 ≤ (Nat.digitChar n).toNat := by decide

theorem printable_escape (c : Char) : Printable (escape c) := by
  unfold escape
  split_ifs with h1 h2 h3 h4 h5 h6 h7 h8
  · decide
  · decide
  · decide
  · decide
  · decide
  · decide
  · decide
  · have hhigh := printable_digitChar (c.toNat / 16) (by omega)
    have hlow := printable_digitChar (c.toNat % 16) (by omega)
    have hlead : Printable [reverseSolidus, 'u', '0', '0'] := by decide
    exact hlead.append (Printable.cons hhigh (Printable.cons hlow (by decide)))
  · exact Printable.cons (Nat.not_lt.mp h8) (by decide)

theorem printable_writeString (s : String) : Printable (writeString s) := by
  apply Printable.cons (by decide)
  apply Printable.append
  · intro c hc
    obtain ⟨d, -, hd⟩ := List.mem_flatMap.mp hc
    exact printable_escape d c hd
  · exact Printable.cons (by decide) (by decide)

theorem printable_digits (n : Nat) : Printable (Nat.toDigits 10 n) := by
  intro c hc
  have hdigit := Digits.isDigit_toDigits n c hc
  simp only [Char.isDigit, Bool.and_eq_true, decide_eq_true_eq] at hdigit
  have hlow : 48 ≤ c.toNat := hdigit.1
  omega

theorem printable_writeNumber (n : Int) : Printable (writeNumber n) := by
  unfold writeNumber
  split
  · exact Printable.cons (by decide) (printable_digits _)
  · exact printable_digits _

theorem printable_comma (first : Bool) : Printable (if first then [] else [',']) := by
  cases first with
  | true => decide
  | false => exact Printable.cons (by decide) (by decide)

mutual

theorem printable_write : ∀ v : Value Int String, Printable (write v)
  | .null | .bool true | .bool false => by
      rw [write]
      decide
  | .number n => printable_writeNumber n
  | .string s => printable_writeString s
  | .array items => Printable.cons (by decide) (printable_writeItems items true)
  | .object fields => Printable.cons (by decide) (printable_writeFields fields true)

theorem printable_writeItems : ∀ (items : List (Value Int String)) (first : Bool),
    Printable (writeItems first items)
  | [], _ => Printable.cons (by decide) (by decide)
  | v :: rest, first =>
      ((printable_comma first).append (printable_write v)).append (printable_writeItems rest false)

theorem printable_writeFields : ∀ (fields : List (String × Value Int String)) (first : Bool),
    Printable (writeFields first fields)
  | [], _ => Printable.cons (by decide) (by decide)
  | (key, v) :: rest, first =>
      (((printable_comma first).append (printable_writeString key)).append
        (Printable.cons (by decide) (printable_write v))).append (printable_writeFields rest false)

end

def lineBreak : Char := Char.ofNat 10

/-- Every text with a line break behind it. -/
def unlines (texts : List (List Char)) : List Char := texts.flatMap fun text => text ++ [lineBreak]

/-- The texts in front of the line breaks. -/
def lines (text : List Char) : List (List Char) := (text.splitOn lineBreak).dropLast

theorem Printable.not_mem {text : List Char} (h : Printable text) : lineBreak ∉ text := by
  intro hmem
  have hcontrol := h lineBreak hmem
  revert hcontrol
  decide

theorem lines_unlines {texts : List (List Char)} (h : ∀ text ∈ texts, Printable text) :
    lines (unlines texts) = texts := by
  have hsplit : (unlines texts).splitOn lineBreak = texts ++ [[]] := by
    induction texts with
    | nil => rfl
    | cons text rest ih =>
        have hhead := (h text (List.mem_cons_self ..)).not_mem
        have htail := ih fun other hother => h other (List.mem_cons_of_mem _ hother)
        have htext : unlines (text :: rest) = text ++ lineBreak :: unlines rest := by
          simp [unlines]
        rw [htext, List.splitOn_append_cons_self_of_not_mem hhead, htail]
        rfl
  rw [lines, hsplit, List.dropLast_concat]

variable {ν : Type} (number : ℚ → ν)

/-- Every line read as a text of its own. -/
def readLines (text : List Char) : Option (List (Value ν Units)) :=
  (lines text).mapM (read number)

/-- The values written one to a line. -/
def writeLines (values : List (Value Int String)) : List Char := unlines (values.map write)

theorem lines_writeLines (values : List (Value Int String)) :
    lines (writeLines values) = values.map write := by
  apply lines_unlines
  intro text htext
  obtain ⟨v, -, rfl⟩ := List.mem_map.mp htext
  exact printable_write v

theorem readLines_writeLines {values : List (Value Int String)} (h : ∀ v ∈ values, v.Distinct) :
    readLines number (writeLines values) = some (values.map (readBack number)) := by
  rw [readLines, lines_writeLines]
  induction values with
  | nil => rfl
  | cons v rest ih =>
      have htail := ih fun w hw => h w (List.mem_cons_of_mem _ hw)
      rw [List.map_cons, List.mapM_cons, read_write number v (h v (List.mem_cons_self ..)), htail]
      rfl

mutual

theorem Value.map_injective {σ σ' ν' : Type} {f : ν → ν'} {g : σ → σ'} (hf : Function.Injective f)
    (hg : Function.Injective g) :
    ∀ v w : Value ν σ, v.map f g = w.map f g → v = w
  | .null, w, h => by cases w <;> simp [Value.map] at h; rfl
  | .bool b, w, h => by
      cases w <;> simp [Value.map] at h
      rw [h]
  | .number n, w, h => by
      cases w <;> simp [Value.map] at h
      rw [hf h]
  | .string s, w, h => by
      cases w <;> simp [Value.map] at h
      rw [hg h]
  | .array items, w, h => by
      cases w <;> simp [Value.map] at h
      rw [mapItems_injective hf hg _ _ h]
  | .object fields, w, h => by
      cases w <;> simp [Value.map] at h
      rw [mapFields_injective hf hg _ _ h]

theorem mapItems_injective {σ σ' ν' : Type} {f : ν → ν'} {g : σ → σ'} (hf : Function.Injective f)
    (hg : Function.Injective g) :
    ∀ items items' : List (Value ν σ), mapItems f g items = mapItems f g items' → items = items'
  | [], [], _ => rfl
  | [], _ :: _, h => by cases h
  | _ :: _, [], h => by cases h
  | v :: rest, w :: rest', h => by
      obtain ⟨hhead, htail⟩ := List.cons.inj h
      rw [Value.map_injective hf hg v w hhead, mapItems_injective hf hg rest rest' htail]

theorem mapFields_injective {σ σ' ν' : Type} {f : ν → ν'} {g : σ → σ'} (hf : Function.Injective f)
    (hg : Function.Injective g) :
    ∀ fields fields' : List (σ × Value ν σ),
      mapFields f g fields = mapFields f g fields' → fields = fields'
  | [], [], _ => rfl
  | [], _ :: _, h => by cases h
  | _ :: _, [], h => by cases h
  | (key, v) :: rest, (key', w) :: rest', h => by
      obtain ⟨hhead, htail⟩ := List.cons.inj h
      obtain ⟨hkey, hvalue⟩ := Prod.mk.inj hhead
      rw [hg hkey, Value.map_injective hf hg v w hvalue, mapFields_injective hf hg rest rest' htail]

end

/-- A text is that of one value. -/
theorem write_injective {v w : Value Int String} (hv : v.Distinct) (hw : w.Distinct)
    (h : write v = write w) : v = w := by
  have hread := read_write (fun q : ℚ => q) v hv
  rw [h, read_write (fun q : ℚ => q) w hw, Option.some.injEq] at hread
  exact (Value.map_injective (fun _ _ hcast => Int.cast_injective hcast) utf16_injective
    _ _ hread).symm

end ShadeIndexer.Lib.Json

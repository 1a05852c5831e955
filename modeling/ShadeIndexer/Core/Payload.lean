import ShadeIndexer.Core.Serialize
import ShadeIndexer.Core.Subscriber
import ShadeIndexer.Lib.JsonLines

/-!
The text of a deploy against its value. No field is lost on the way, so that
whoever compares payloads compares deploys.
-/

namespace ShadeIndexer.Core

open Lib.Json (Value)

theorem Launchpad.serialize_injective : Function.Injective Launchpad.serialize := by
  intro a b h
  cases a <;> cases b <;> first | rfl | exact absurd h (by decide)

theorem FixedBytes.serialize_injective {n : Nat} :
    Function.Injective (FixedBytes.serialize : FixedBytes n → String) := by
  intro a b h
  have htext : Lib.Hex.encode a.bytes = Lib.Hex.encode b.bytes := String.append_right_inj _ |>.mp h
  have hread := Lib.Hex.decodeChars_encode a.bytes
  rw [htext, Lib.Hex.decodeChars_encode, Option.some.injEq] at hread
  obtain ⟨bytes, _⟩ := a
  obtain ⟨bytes', _⟩ := b
  dsimp only at hread
  subst hread
  rfl

theorem U256.serialize_injective : Function.Injective U256.serialize := by
  intro x y h
  have htext := String.ofList_injective ((String.append_right_inj _).mp h)
  exact BitVec.eq_of_toNat_eq (Lib.Digits.toDigits_inj (by decide) (by decide) htext)

mutual

theorem Json.toValue_injective : ∀ a b : Json, a.toValue = b.toValue → a = b
  | .null, b, h => by cases b <;> simp [Json.toValue] at h; rfl
  | .bool x, b, h => by
      cases b <;> simp [Json.toValue] at h
      rw [h]
  | .number n, b, h => by
      cases b <;> simp [Json.toValue] at h
      rw [h]
  | .string s, b, h => by
      cases b <;> simp [Json.toValue] at h
      rw [h]
  | .array items, b, h => by
      cases b <;> simp [Json.toValue] at h
      rw [toValues_injective _ _ h]
  | .object fields, b, h => by
      cases b <;> simp [Json.toValue] at h
      rw [toFields_injective _ _ h]

theorem toValues_injective : ∀ items items' : List Json,
    toValues items = toValues items' → items = items'
  | [], [], _ => rfl
  | [], _ :: _, h => by cases h
  | _ :: _, [], h => by cases h
  | a :: rest, b :: rest', h => by
      obtain ⟨hhead, htail⟩ := List.cons.inj h
      rw [Json.toValue_injective a b hhead, toValues_injective rest rest' htail]

theorem toFields_injective : ∀ fields fields' : List (String × Json),
    toFields fields = toFields fields' → fields = fields'
  | [], [], _ => rfl
  | [], _ :: _, h => by cases h
  | _ :: _, [], h => by cases h
  | (key, a) :: rest, (key', b) :: rest', h => by
      obtain ⟨hhead, htail⟩ := List.cons.inj h
      obtain ⟨rfl, hvalue⟩ := Prod.mk.inj hhead
      rw [Json.toValue_injective a b hvalue, toFields_injective rest rest' htail]

end

namespace NormalizedDeploy

/-- The fields that may be left out. -/
def optionalFields (d : NormalizedDeploy) : List (String × Value Int String) :=
  d.supplyField ++ d.rawField

theorem supplyField_keys (d : NormalizedDeploy) :
    ∀ field ∈ d.supplyField, field.1 = "initial_supply" := by
  unfold supplyField
  cases d.initialSupply <;> simp

theorem rawField_keys (d : NormalizedDeploy) : ∀ field ∈ d.rawField, field.1 = "raw" := by
  unfold rawField
  split <;> simp

/-- Each optional field is found under its own key. -/
theorem optionalFields_split (d : NormalizedDeploy) :
    d.optionalFields.filter (fun field => field.1 = "initial_supply") = d.supplyField ∧
      d.optionalFields.filter (fun field => field.1 = "raw") = d.rawField := by
  have hsupply : d.supplyField.filter (fun field => field.1 = "initial_supply") = d.supplyField :=
    List.filter_eq_self.mpr fun field h => by simp [d.supplyField_keys field h]
  have hsupply' : d.supplyField.filter (fun field => field.1 = "raw") = [] :=
    List.filter_eq_nil_iff.mpr fun field h => by simp [d.supplyField_keys field h]
  have hraw : d.rawField.filter (fun field => field.1 = "raw") = d.rawField :=
    List.filter_eq_self.mpr fun field h => by simp [d.rawField_keys field h]
  have hraw' : d.rawField.filter (fun field => field.1 = "initial_supply") = [] :=
    List.filter_eq_nil_iff.mpr fun field h => by simp [d.rawField_keys field h]
  unfold optionalFields
  rw [List.filter_append, List.filter_append, hsupply, hsupply', hraw, hraw', List.append_nil,
    List.nil_append]
  exact ⟨rfl, rfl⟩

theorem supplyField_injective {d d' : NormalizedDeploy} (h : d.supplyField = d'.supplyField) :
    d.initialSupply = d'.initialSupply := by
  unfold supplyField at h
  cases hd : d.initialSupply with
  | none =>
      cases hd' : d'.initialSupply with
      | none => rfl
      | some supply' => simp [hd, hd'] at h
  | some supply =>
      cases hd' : d'.initialSupply with
      | none => simp [hd, hd'] at h
      | some supply' =>
          simp only [hd, hd', List.cons.injEq, Prod.mk.injEq, Value.string.injEq, true_and,
            and_true] at h
          rw [U256.serialize_injective h]

theorem isNull_eq {raw : Json} (h : raw.isNull = true) : raw = .null := by
  cases raw with
  | null => rfl
  | bool b | number n | string s | array items | object fields => cases h

theorem rawField_injective {d d' : NormalizedDeploy} (h : d.rawField = d'.rawField) :
    d.raw = d'.raw := by
  unfold rawField at h
  cases hd : d.raw.isNull with
  | true =>
      cases hd' : d'.raw.isNull with
      | true => rw [isNull_eq hd, isNull_eq hd']
      | false => simp [hd, hd'] at h
  | false =>
      cases hd' : d'.raw.isNull with
      | true => simp [hd, hd'] at h
      | false =>
          simp only [hd, hd', Bool.false_eq_true, if_false, List.cons.injEq, Prod.mk.injEq,
            true_and, and_true] at h
          exact Json.toValue_injective _ _ h

theorem toNat_cast_inj {a b : UInt64} (h : (a.toNat : Int) = b.toNat) : a = b :=
  UInt64.toNat_inj.mp (Int.ofNat_inj.mp h)

theorem serialize_injective : Function.Injective serialize := by
  intro d d' h
  unfold serialize at h
  rw [List.append_assoc, List.append_assoc] at h
  obtain ⟨hrequired, hoptional⟩ := List.append_inj h rfl
  have hsplit := d.optionalFields_split
  have hsplit' := d'.optionalFields_split
  rw [optionalFields, hoptional] at hsplit
  rw [optionalFields] at hsplit'
  have hsupply := supplyField_injective (hsplit.1.symm.trans hsplit'.1)
  have hraw := rawField_injective (hsplit.2.symm.trans hsplit'.2)
  simp only [requiredFields, List.cons.injEq, Prod.mk.injEq, Value.string.injEq,
    Value.number.injEq, true_and, and_true] at hrequired
  obtain ⟨hlaunchpad, htoken, hdeployer, hblock, htimestamp, htx, hindex⟩ := hrequired
  obtain ⟨launchpad, token, deployer, blockNumber, blockTimestamp, txHash, logIndex, _, _⟩ := d
  dsimp only at hlaunchpad htoken hdeployer hblock htimestamp htx hindex hsupply hraw
  rw [Launchpad.serialize_injective hlaunchpad, FixedBytes.serialize_injective htoken,
    FixedBytes.serialize_injective hdeployer, toNat_cast_inj hblock, toNat_cast_inj htimestamp,
    FixedBytes.serialize_injective htx, toNat_cast_inj hindex, hsupply, hraw]

/-- `serde_json::to_string(deploy)` -/
def text (d : NormalizedDeploy) : List Char := Lib.Json.write (.object d.serialize)

end NormalizedDeploy

/-- The deploy comes out of the decoder. -/
def Decoded (d : NormalizedDeploy) : Prop :=
  ∃ launchpad log, decodeDeploy launchpad log = .ok d

theorem Decoded.distinct {d : NormalizedDeploy} (h : Decoded d) :
    (Value.object d.serialize : Value Int String).Distinct := by
  obtain ⟨launchpad, log, hdecode⟩ := h
  exact NormalizedDeploy.serialize_distinct (decodeDeploy_spec hdecode).2.distinct

theorem utf8_injective : Function.Injective utf8 := by
  intro s t h
  apply String.toByteArray_inj.mp
  exact ByteArray.ext (Array.toList_inj.mp h)

theorem Decoded.text_inj {d d' : NormalizedDeploy} (h : Decoded d) (h' : Decoded d')
    (htext : d.text = d'.text) : d = d' := by
  have hvalue := Lib.Json.write_injective h.distinct h'.distinct htext
  exact NormalizedDeploy.serialize_injective (Value.object.inj hvalue)

theorem Decoded.toVec_inj {d d' : NormalizedDeploy} (h : Decoded d) (h' : Decoded d')
    (hvec : d.toVec = d'.toVec) : d = d' :=
  h.text_inj h' (String.ofList_injective (utf8_injective hvec))

/-- If one map tells the members of two lists apart as far as another one, then
also the lists. -/
theorem map_eq_of_mem {α β γ : Type} {f : α → β} {g : α → γ} {as bs : List α}
    (hfg : ∀ a ∈ as, ∀ b ∈ bs, f a = f b → g a = g b) (h : as.map f = bs.map f) :
    as.map g = bs.map g := by
  induction as generalizing bs with
  | nil =>
      obtain rfl := List.map_eq_nil_iff.mp h.symm
      rfl
  | cons a as ih =>
      cases bs with
      | nil => cases h
      | cons b bs =>
          obtain ⟨hhead, htail⟩ := List.cons.inj h
          rw [List.map_cons, List.map_cons,
            hfg a (List.mem_cons_self ..) b (List.mem_cons_self ..) hhead]
          rw [ih (fun c hc d hd => hfg c (List.mem_cons_of_mem _ hc) d (List.mem_cons_of_mem _ hd))
            htail]

theorem map_inj_of_mem {α β : Type} {f : α → β} {as bs : List α}
    (hf : ∀ a ∈ as, ∀ b ∈ bs, f a = f b → a = b) (h : as.map f = bs.map f) : as = bs := by
  have hsame : as.map id = bs.map id := map_eq_of_mem hf h
  rwa [List.map_id, List.map_id] at hsame

/-- Sequences of decoded deploys are told apart by their payloads, and also by
their lines in one text without any other delimiter. -/
theorem payloads_identify_deploys (ds ds' : List NormalizedDeploy) (h : ∀ d ∈ ds, Decoded d)
    (h' : ∀ d ∈ ds', Decoded d) :
    (ds.map NormalizedDeploy.toVec = ds'.map NormalizedDeploy.toVec ↔ ds = ds') ∧
      (Lib.Json.unlines (ds.map NormalizedDeploy.text) =
        Lib.Json.unlines (ds'.map NormalizedDeploy.text) ↔ ds = ds') := by
  have hprintable (deploys : List NormalizedDeploy) :
      ∀ text ∈ deploys.map NormalizedDeploy.text, Lib.Json.Printable text := by
    intro text htext
    obtain ⟨d, -, rfl⟩ := List.mem_map.mp htext
    exact Lib.Json.printable_write _
  constructor
  · constructor
    · apply map_inj_of_mem
      intro d hd d' hd' hvec
      exact (h d hd).toVec_inj (h' d' hd') hvec
    · rintro rfl
      rfl
  · constructor
    · intro htext
      have hlines := congrArg Lib.Json.lines htext
      rw [Lib.Json.lines_unlines (hprintable ds), Lib.Json.lines_unlines (hprintable ds')] at hlines
      apply map_inj_of_mem _ hlines
      intro d hd d' hd' hsame
      exact (h d hd).text_inj (h' d' hd') hsame
    · rintro rfl
      rfl

theorem payloads_identify_deploys_retracted :
    ∃ d, decodeDeploy .zora retractedLaunch = .ok d ∧
      ([d].map NormalizedDeploy.toVec = [d, d].map NormalizedDeploy.toVec ↔ [d] = [d, d]) := by
  have hdecode : decodeDeploy .zora retractedLaunch = .ok _ := rfl
  refine ⟨_, hdecode, (payloads_identify_deploys _ _ ?_ ?_).1⟩
  · intro d hd
    obtain rfl := List.mem_singleton.mp hd
    exact ⟨.zora, retractedLaunch, hdecode⟩
  · intro d hd
    obtain rfl : d = _ := by simpa using hd
    exact ⟨.zora, retractedLaunch, hdecode⟩

end ShadeIndexer.Core

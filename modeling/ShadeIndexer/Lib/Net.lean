import Mathlib.Data.Fintype.Basic
import ShadeIndexer.Lib.Digits

/-!
IP addresses and socket addresses as text, after `core::net`. An address is
displayed without brackets. A socket address is read with brackets around an
IPv6 address and without brackets around an IPv4 address.

A reader returns what it read and the rest of the text. It returns `none` if
it fails, and then nothing has been read.
-/

namespace ShadeIndexer.Lib.Net

open Digits

structure Ipv4Addr where
  a : UInt8
  b : UInt8
  c : UInt8
  d : UInt8
  deriving DecidableEq, Repr

structure Ipv6Addr where
  segments : Fin 8 → UInt16
  deriving DecidableEq

inductive IpAddr where
  | v4 (ip : Ipv4Addr)
  | v6 (ip : Ipv6Addr)
  deriving DecidableEq

inductive SocketAddr where
  | v4 (ip : Ipv4Addr) (port : UInt16)
  | v6 (ip : Ipv6Addr) (port : UInt16) (flowinfo scopeId : UInt32)
  deriving DecidableEq

def SocketAddr.ip : SocketAddr → IpAddr
  | .v4 ip _ => .v4 ip
  | .v6 ip .. => .v6 ip

def SocketAddr.port : SocketAddr → UInt16
  | .v4 _ port => port
  | .v6 _ port .. => port

def SocketAddr.isIpv4 : SocketAddr → Bool
  | .v4 .. => true
  | .v6 .. => false

def decimal (n : Nat) : List Char := Nat.toDigits 10 n

def hexadecimal (n : Nat) : List Char := Nat.toDigits 16 n

def Ipv4Addr.display (ip : Ipv4Addr) : List Char :=
  decimal ip.a.toNat ++ '.' :: (decimal ip.b.toNat ++ '.' :: (decimal ip.c.toNat ++
    '.' :: decimal ip.d.toNat))

/-- `::ffff:a.b.c.d` -/
def Ipv6Addr.toIpv4Mapped (ip : Ipv6Addr) : Option Ipv4Addr :=
  if ip.segments 0 = 0 ∧ ip.segments 1 = 0 ∧ ip.segments 2 = 0 ∧ ip.segments 3 = 0 ∧
      ip.segments 4 = 0 ∧ ip.segments 5 = 0xffff then
    some ⟨UInt8.ofNat ((ip.segments 6).toNat / 256), UInt8.ofNat (ip.segments 6).toNat,
      UInt8.ofNat ((ip.segments 7).toNat / 256), UInt8.ofNat (ip.segments 7).toNat⟩
  else none

structure Span where
  start : Nat
  len : Nat

/-- The first of the longest runs of zero segments. -/
def longestZeroes : List UInt16 → Nat → Span → Span → Span
  | [], _, longest, _ => longest
  | segment :: rest, i, longest, current =>
    if segment = 0 then
      let current : Span := ⟨if current.len = 0 then i else current.start, current.len + 1⟩
      longestZeroes rest (i + 1) (if longest.len < current.len then current else longest) current
    else longestZeroes rest (i + 1) longest ⟨0, 0⟩

/-- A colon-separated part of the address. -/
def fmtSubslice : List UInt16 → List Char
  | [] => []
  | first :: tail =>
    hexadecimal first.toNat ++ tail.flatMap fun segment => ':' :: hexadecimal segment.toNat

def Ipv6Addr.display (ip : Ipv6Addr) : List Char :=
  match ip.toIpv4Mapped with
  | some ipv4 => "::ffff:".toList ++ ipv4.display
  | none =>
    let segments := List.ofFn ip.segments
    let zeroes := longestZeroes segments 0 ⟨0, 0⟩ ⟨0, 0⟩
    if 1 < zeroes.len then
      fmtSubslice (segments.take zeroes.start) ++
        "::".toList ++ fmtSubslice (segments.drop (zeroes.start + zeroes.len))
    else fmtSubslice segments

def IpAddr.display : IpAddr → List Char
  | .v4 ip => ip.display
  | .v6 ip => ip.display

/-- `char::to_digit` -/
def toDigit (radix : Nat) (c : Char) : Option Nat :=
  let digit :=
    if 48 ≤ c.toNat ∧ c.toNat ≤ 57 then some (c.toNat - 48)
    else if 97 ≤ c.toNat ∧ c.toNat ≤ 122 then some (c.toNat - 87)
    else if 65 ≤ c.toNat ∧ c.toNat ≤ 90 then some (c.toNat - 55)
    else none
  digit.filter fun d => d < radix

def readGivenChar (target : Char) : List Char → Option (List Char)
  | [] => none
  | c :: rest => if c = target then some rest else none

/-- Whether the number may go on: the digits are limited in number, or else the
checked arithmetic of the type limits the result. -/
def withinLimit (bound : Nat) (maxDigits : Option Nat) (result digitCount : Nat) : Bool :=
  match maxDigits with
  | some m => digitCount ≤ m
  | none => result < bound

/-- The loop over the digits. `bound` is one more than the largest value of the
type that is read. -/
def numberLoop (radix bound : Nat) (maxDigits : Option Nat) :
    List Char → Nat → Nat → Option (Nat × Nat × List Char)
  | [], result, digitCount => some (result, digitCount, [])
  | c :: rest, result, digitCount =>
    match toDigit radix c with
    | none => some (result, digitCount, c :: rest)
    | some digit =>
      let result := radix * result + digit
      if withinLimit bound maxDigits result (digitCount + 1) then
        numberLoop radix bound maxDigits rest result (digitCount + 1)
      else none

def readNumber (radix bound : Nat) (maxDigits : Option Nat) (allowZeroPrefix : Bool)
    (text : List Char) : Option (Nat × List Char) := do
  let (result, digitCount, rest) ← numberLoop radix bound maxDigits text 0 0
  if digitCount = 0 then none
  else if !allowZeroPrefix && text.head? == some '0' && 1 < digitCount then none
  else if result < bound then some (result, rest)
  else none

/-- The separator is read in front of every item but the first. -/
def readSeparator {α : Type} (sep : Char) (i : Nat) (inner : List Char → Option (α × List Char))
    (text : List Char) : Option (α × List Char) :=
  if 0 < i then (readGivenChar sep text).bind inner else inner text

def readOctet (i : Nat) (text : List Char) : Option (UInt8 × List Char) :=
  (readSeparator '.' i (readNumber 10 256 (some 3) false) text).map fun read =>
    (UInt8.ofNat read.1, read.2)

def readIpv4Addr (text : List Char) : Option (Ipv4Addr × List Char) := do
  let (a, text) ← readOctet 0 text
  let (b, text) ← readOctet 1 text
  let (c, text) ← readOctet 2 text
  let (d, text) ← readOctet 3 text
  some (⟨a, b, c, d⟩, text)

def Ipv4Addr.groups (ip : Ipv4Addr) : List UInt16 :=
  [UInt16.ofNat (256 * ip.a.toNat + ip.b.toNat), UInt16.ofNat (256 * ip.c.toNat + ip.d.toNat)]

/-- Reads groups until `left` more are read, and tells whether the last two were
an embedded IPv4 address. That needs room for two. -/
def readGroups : Nat → List UInt16 → List Char → List UInt16 × Bool × List Char
  | 0, groups, text => (groups, false, text)
  | left + 1, groups, text =>
    match if 0 < left then readSeparator ':' groups.length readIpv4Addr text else none with
    | some (ipv4, rest) => (groups ++ ipv4.groups, true, rest)
    | none =>
      match readSeparator ':' groups.length (readNumber 16 65536 (some 4) true) text with
      | some (group, rest) => readGroups left (groups ++ [UInt16.ofNat group]) rest
      | none => (groups, false, text)

/-- The head is at the front of the eight segments and the tail at their end. -/
def Ipv6Addr.ofGroups (head tail : List UInt16) : Ipv6Addr where
  segments := fun i =>
    (head ++ List.replicate (8 - tail.length - head.length) 0 ++ tail).getD i 0

def readIpv6Addr (text : List Char) : Option (Ipv6Addr × List Char) :=
  let (head, headIpv4, text) := readGroups 8 [] text
  if head.length = 8 then some (.ofGroups head [], text)
  else if headIpv4 then none
  else do
    let text ← readGivenChar ':' text
    let text ← readGivenChar ':' text
    let (tail, _, text) := readGroups (8 - (head.length + 1)) [] text
    some (.ofGroups head tail, text)

def readPort (text : List Char) : Option (UInt16 × List Char) := do
  let text ← readGivenChar ':' text
  let (port, text) ← readNumber 10 65536 none true text
  some (UInt16.ofNat port, text)

def readScopeId (text : List Char) : Option (UInt32 × List Char) := do
  let text ← readGivenChar '%' text
  let (scopeId, text) ← readNumber 10 (2 ^ 32) none true text
  some (UInt32.ofNat scopeId, text)

def readSocketAddrV4 (text : List Char) : Option (SocketAddr × List Char) := do
  let (ip, text) ← readIpv4Addr text
  let (port, text) ← readPort text
  some (.v4 ip port, text)

def readSocketAddrV6 (text : List Char) : Option (SocketAddr × List Char) := do
  let text ← readGivenChar '[' text
  let (ip, text) ← readIpv6Addr text
  let (scopeId, text) := (readScopeId text).getD (0, text)
  let text ← readGivenChar ']' text
  let (port, text) ← readPort text
  some (.v6 ip port 0 scopeId, text)

def readSocketAddr (text : List Char) : Option (SocketAddr × List Char) :=
  (readSocketAddrV4 text).or (readSocketAddrV6 text)

/-- `str::parse`, which does not leave anything unread. -/
def parse (text : String) : Option SocketAddr :=
  match readSocketAddr text.toList with
  | some (addr, []) => some addr
  | _ => none

theorem toDigit_of_isDigit {c : Char} (h : c.isDigit = true) :
    toDigit 10 c = some (c.toNat - '0'.toNat) := by
  have hrange : 48 ≤ c.toNat ∧ c.toNat ≤ 57 := by
    simp only [Char.isDigit, Bool.and_eq_true, decide_eq_true_eq] at h
    exact h
  have hzero : '0'.toNat = 48 := rfl
  simp only [toDigit, if_pos hrange, hzero, Option.filter_some]
  rw [if_pos]
  simp only [decide_eq_true_eq]
  omega

/-- The number does not go on into `rest`. -/
def EndsNumber (rest : List Char) : Prop := ∀ c ∈ rest.head?, toDigit 10 c = none

theorem endsNumber_nil : EndsNumber [] := by
  intro c hc
  cases hc

theorem endsNumber_cons {c : Char} (rest : List Char) (h : toDigit 10 c = none) :
    EndsNumber (c :: rest) := by
  intro x hx
  cases hx
  exact h

theorem withinLimit_mono {bound result result' count count' : Nat} {maxDigits : Option Nat}
    (hresult : result ≤ result') (hcount : count ≤ count')
    (h : withinLimit bound maxDigits result' count' = true) :
    withinLimit bound maxDigits result count = true := by
  cases maxDigits with
  | none =>
      simp only [withinLimit, decide_eq_true_eq] at h ⊢
      omega
  | some m =>
      simp only [withinLimit, decide_eq_true_eq] at h ⊢
      omega

theorem numberLoop_append (bound : Nat) (maxDigits : Option Nat) (digits : List Char)
    {rest : List Char} (result count : Nat) (hdigits : ∀ c ∈ digits, c.isDigit = true)
    (hrest : EndsNumber rest)
    (hlimit : withinLimit bound maxDigits (Nat.ofDigitChars 10 digits result)
      (count + digits.length) = true) :
    numberLoop 10 bound maxDigits (digits ++ rest) result count =
      some (Nat.ofDigitChars 10 digits result, count + digits.length, rest) := by
  induction digits generalizing result count with
  | nil =>
      cases rest with
      | nil => rfl
      | cons c rest => simp [numberLoop, hrest c rfl]
  | cons c digits ih =>
      have hdigit := toDigit_of_isDigit (hdigits c List.mem_cons_self)
      have hlength : count + (c :: digits).length = count + 1 + digits.length := by
        rw [List.length_cons]
        omega
      rw [Nat.ofDigitChars_cons, hlength] at hlimit ⊢
      have hnow := withinLimit_mono (le_ofDigitChars digits _) (Nat.le_add_right _ _) hlimit
      rw [List.cons_append, numberLoop, hdigit]
      dsimp only
      rw [if_pos hnow]
      exact ih _ _ (fun x hx => hdigits x (List.mem_cons_of_mem c hx)) hlimit

theorem decimal_ne_nil (n : Nat) : decimal n ≠ [] := Nat.toDigits_ne_nil

theorem ofDigitChars_decimal (n : Nat) : Nat.ofDigitChars 10 (decimal n) 0 = n :=
  Nat.ofDigitChars_ten_toDigits

/-- A number is read as it is written, if its type and the number of its digits
allow it. -/
theorem readNumber_decimal {bound n : Nat} {maxDigits : Option Nat} (allowZeroPrefix : Bool)
    {rest : List Char} (hbound : n < bound)
    (hlimit : withinLimit bound maxDigits n (decimal n).length = true) (hrest : EndsNumber rest) :
    readNumber 10 bound maxDigits allowZeroPrefix (decimal n ++ rest) = some (n, rest) := by
  have hloop := numberLoop_append bound maxDigits (decimal n) 0 0 (isDigit_toDigits n) hrest
    (by rw [ofDigitChars_decimal, Nat.zero_add]; exact hlimit)
  have hlength : (decimal n).length ≠ 0 := Nat.ne_of_gt Nat.length_toDigits_pos
  have hzero : ¬ ((decimal n ++ rest).head? = some '0' ∧ 1 < (decimal n).length) := by
    rintro ⟨hhead, hlong⟩
    rcases Nat.eq_zero_or_pos n with rfl | hpos
    · exact absurd hlong (by decide)
    · rw [List.head?_append_of_ne_nil _ (decimal_ne_nil n)] at hhead
      exact head_toDigits hpos hhead
  rw [ofDigitChars_decimal, Nat.zero_add] at hloop
  rw [readNumber, hloop]
  simp only [Option.bind_eq_bind, Option.bind_some]
  rw [if_neg hlength, if_neg, if_pos hbound]
  simp only [Bool.and_eq_true, beq_iff_eq, decide_eq_true_eq]
  rintro ⟨⟨-, hhead⟩, hlong⟩
  exact hzero ⟨hhead, hlong⟩

theorem readNumber_octet (x : UInt8) {rest : List Char} (hrest : EndsNumber rest) :
    readNumber 10 256 (some 3) false (decimal x.toNat ++ rest) = some (x.toNat, rest) := by
  have hx : x.toNat < 256 := x.toNat_lt
  have hlength : (decimal x.toNat).length ≤ 3 :=
    (Nat.length_toDigits_le_iff (by decide) (by decide)).mpr (by omega)
  exact readNumber_decimal false hx (decide_eq_true hlength) hrest

theorem readOctet_first (x : UInt8) {rest : List Char} (hrest : EndsNumber rest) :
    readOctet 0 (decimal x.toNat ++ rest) = some (x, rest) := by
  rw [readOctet, readSeparator, if_neg (Nat.lt_irrefl 0), readNumber_octet x hrest]
  simp

theorem readOctet_later (x : UInt8) (i : Nat) {rest : List Char} (hrest : EndsNumber rest) :
    readOctet (i + 1) ('.' :: (decimal x.toNat ++ rest)) = some (x, rest) := by
  rw [readOctet, readSeparator, if_pos (Nat.succ_pos i), readGivenChar, if_pos rfl,
    Option.bind_some, readNumber_octet x hrest]
  simp

theorem readIpv4Addr_display (ip : Ipv4Addr) {rest : List Char} (hrest : EndsNumber rest) :
    readIpv4Addr (ip.display ++ rest) = some (ip, rest) := by
  have hdot : ∀ tail, EndsNumber ('.' :: tail) := fun tail => endsNumber_cons tail rfl
  simp only [readIpv4Addr, Ipv4Addr.display, List.append_assoc, List.cons_append,
    readOctet_first ip.a (hdot _), readOctet_later ip.b 0 (hdot _), readOctet_later ip.c 1 (hdot _),
    readOctet_later ip.d 2 hrest, Option.bind_eq_bind, Option.bind_some]

theorem readPort_decimal (port : UInt16) :
    readPort (':' :: decimal port.toNat) = some (port, []) := by
  have hport : port.toNat < 65536 := port.toNat_lt
  have hread : readNumber 10 65536 none true (decimal port.toNat ++ []) =
      some (port.toNat, []) :=
    readNumber_decimal true hport (decide_eq_true hport) endsNumber_nil
  rw [List.append_nil] at hread
  rw [readPort, readGivenChar, if_pos rfl]
  simp only [hread, Option.bind_eq_bind, Option.bind_some, UInt16.ofNat_toNat]

theorem readSocketAddr_v4 (ip : Ipv4Addr) (port : UInt16) :
    readSocketAddr (ip.display ++ ':' :: decimal port.toNat) = some (.v4 ip port, []) := by
  have hip := readIpv4Addr_display ip (endsNumber_cons (decimal port.toNat) (c := ':') rfl)
  simp only [readSocketAddr, readSocketAddrV4, hip, readPort_decimal, Option.bind_eq_bind,
    Option.bind_some, Option.some_or]

/-- What a number was read from: digits, in front of the rest. -/
theorem numberLoop_consumes {radix bound : Nat} {maxDigits : Option Nat} {text rest : List Char}
    {result count value total : Nat}
    (h : numberLoop radix bound maxDigits text result count = some (value, total, rest)) :
    ∃ digits, text = digits ++ rest ∧ ∀ c ∈ digits, (toDigit radix c).isSome := by
  induction text generalizing result count with
  | nil =>
      simp only [numberLoop, Option.some.injEq, Prod.mk.injEq] at h
      exact ⟨[], h.2.2, by simp⟩
  | cons c tail ih =>
      rw [numberLoop] at h
      cases hdigit : toDigit radix c with
      | none =>
          rw [hdigit] at h
          simp only [Option.some.injEq, Prod.mk.injEq] at h
          exact ⟨[], h.2.2, by simp⟩
      | some digit =>
          rw [hdigit] at h
          dsimp only at h
          split at h
          · obtain ⟨digits, htail, hdigits⟩ := ih h
            refine ⟨c :: digits, by rw [htail, List.cons_append], ?_⟩
            intro x hx
            rcases List.mem_cons.mp hx with rfl | hx
            · rw [hdigit]
              rfl
            · exact hdigits x hx
          · cases h

theorem readNumber_consumes {radix bound : Nat} {maxDigits : Option Nat} {allowZeroPrefix : Bool}
    {text rest : List Char} {value : Nat}
    (h : readNumber radix bound maxDigits allowZeroPrefix text = some (value, rest)) :
    ∃ digits, text = digits ++ rest ∧ ∀ c ∈ digits, (toDigit radix c).isSome := by
  obtain ⟨⟨result, count, tail⟩, hloop, hrest⟩ := Option.bind_eq_some_iff.mp h
  obtain ⟨digits, htext, hdigits⟩ := numberLoop_consumes hloop
  dsimp only at hrest
  split at hrest
  · cases hrest
  · split at hrest
    · cases hrest
    · split at hrest
      · simp only [Option.some.injEq, Prod.mk.injEq] at hrest
        exact ⟨digits, by rw [htext, hrest.2], hdigits⟩
      · cases hrest

/-- An IPv4 address begins with digits and a dot. -/
theorem readIpv4Addr_consumes {text rest : List Char} {ip : Ipv4Addr}
    (h : readIpv4Addr text = some (ip, rest)) :
    ∃ digits tail, text = digits ++ '.' :: tail ∧ ∀ c ∈ digits, (toDigit 10 c).isSome := by
  obtain ⟨⟨a, text₁⟩, hfirst, hlater⟩ := Option.bind_eq_some_iff.mp h
  obtain ⟨⟨b, text₂⟩, hsecond, -⟩ := Option.bind_eq_some_iff.mp hlater
  obtain ⟨⟨x, text₁'⟩, hnumber, hread⟩ := Option.map_eq_some_iff.mp hfirst
  obtain ⟨⟨y, text₂'⟩, hdotted, -⟩ := Option.map_eq_some_iff.mp hsecond
  obtain ⟨digits, htext, hdigits⟩ := readNumber_consumes hnumber
  obtain ⟨tail, hdot, -⟩ := Option.bind_eq_some_iff.mp hdotted
  simp only [Prod.mk.injEq] at hread
  refine ⟨digits, tail, ?_, hdigits⟩
  rw [htext, hread.2]
  cases text₁ with
  | nil => cases hdot
  | cons c after =>
      rw [readGivenChar] at hdot
      split at hdot
      · rename_i hc
        rw [hc, Option.some.inj hdot]
      · cases hdot

/-- Characters that only separate. -/
def Plain (c : Char) : Prop := c ≠ '.' ∧ c ≠ '['

theorem plain_hexadecimal (n : Nat) : ∀ c ∈ hexadecimal n, Plain c := by
  refine forall_mem_toDigits (by decide) ?_ n
  unfold Plain
  decide

/-- A text in which a colon comes before any dot, and a colon or a digit first. -/
def ColonFirst (text : List Char) : Prop :=
  ∃ front tail, text = front ++ ':' :: tail ∧ ∀ c ∈ front, Plain c

theorem colonFirst_cons (tail : List Char) : ColonFirst (':' :: tail) :=
  ⟨[], tail, rfl, by simp⟩

theorem ColonFirst.append {text : List Char} (h : ColonFirst text) (more : List Char) :
    ColonFirst (text ++ more) := by
  obtain ⟨front, tail, rfl, hfront⟩ := h
  exact ⟨front, tail ++ more, by simp, hfront⟩

/-- A part of an IPv6 address and the colon behind it. -/
theorem colonFirst_fmtSubslice (chunk : List UInt16) (tail : List Char) :
    ColonFirst (fmtSubslice chunk ++ ':' :: tail) := by
  cases chunk with
  | nil => exact colonFirst_cons tail
  | cons first rest =>
      cases rest with
      | nil => exact ⟨hexadecimal first.toNat, tail, by simp [fmtSubslice], plain_hexadecimal _⟩
      | cons second rest =>
          exact ⟨hexadecimal first.toNat, _, by simp [fmtSubslice]; rfl, plain_hexadecimal _⟩

/-- Without a run of zeroes, the colon is the one behind the first segment. -/
theorem colonFirst_segments (ip : Ipv6Addr) : ColonFirst (fmtSubslice (List.ofFn ip.segments)) := by
  rw [List.ofFn_succ, List.ofFn_succ]
  exact ⟨hexadecimal (ip.segments 0).toNat, _, by simp [fmtSubslice]; rfl, plain_hexadecimal _⟩

theorem colonFirst_display (ip : Ipv6Addr) : ColonFirst ip.display := by
  unfold Ipv6Addr.display
  cases ip.toIpv4Mapped with
  | some ipv4 => exact colonFirst_cons _
  | none =>
      dsimp only
      split
      · rw [List.append_assoc]
        exact colonFirst_fmtSubslice _ _
      · exact colonFirst_segments ip

/-- Neither of the two readers accepts a text in which a colon comes first. -/
theorem ColonFirst.not_read {text : List Char} (h : ColonFirst text) :
    readSocketAddr text = none := by
  obtain ⟨front, tail, rfl, hfront⟩ := h
  have hv4 : readIpv4Addr (front ++ ':' :: tail) = none := by
    cases hread : readIpv4Addr (front ++ ':' :: tail) with
    | none => rfl
    | some read =>
        obtain ⟨digits, after, htext, hdigits⟩ := readIpv4Addr_consumes hread
        rcases List.append_eq_append_iff.mp htext with ⟨between, hlong, hrest⟩ |
          ⟨between, hlong, hrest⟩
        · -- the colon would be one of the digits
          cases between with
          | nil => cases hrest
          | cons c between =>
              cases hrest
              have hdigit := hdigits ':' (by simp [hlong])
              exact absurd hdigit (by decide)
        · -- the dot would be in front of the colon
          cases between with
          | nil => cases hrest
          | cons c between =>
              cases hrest
              exact absurd rfl (hfront '.' (by simp [hlong])).1
  have hv6 : readGivenChar '[' (front ++ ':' :: tail) = none := by
    cases front with
    | nil => rfl
    | cons c front => exact if_neg (hfront c List.mem_cons_self).2
  simp only [readSocketAddr, readSocketAddrV4, readSocketAddrV6, hv4, hv6, Option.bind_eq_bind,
    Option.bind_none, Option.or_none]

/-- `format!("{ip}:{port}")` -/
def ipColonPort (ip : IpAddr) (port : UInt16) : String :=
  String.ofList (ip.display ++ ':' :: decimal port.toNat)

theorem parse_ipColonPort_v4 (ip : Ipv4Addr) (port : UInt16) :
    parse (ipColonPort (.v4 ip) port) = some (.v4 ip port) := by
  have hread := readSocketAddr_v4 ip port
  rw [parse, ipColonPort, String.toList_ofList, IpAddr.display, hread]

theorem parse_ipColonPort_v6 (ip : Ipv6Addr) (port : UInt16) :
    parse (ipColonPort (.v6 ip) port) = none := by
  have hread := ((colonFirst_display ip).append (':' :: decimal port.toNat)).not_read
  rw [parse, ipColonPort, String.toList_ofList, IpAddr.display, hread]

end ShadeIndexer.Lib.Net

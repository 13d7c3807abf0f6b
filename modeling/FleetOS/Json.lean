import FleetOS.Printing

/-!
# Compact JSON

The JSON texts without white space in which numbers are integers and strings have no escapes.
The characters that would need one are excluded by the type of the strings (`Text`), so
that every value has a text (`render`), and reading that text gives the value back
(`parse_render`). The reader takes no leading zeros and nothing behind the value : what it accepts
is JSON.
-/

namespace Json

open Printing (decimal separated)

/-! ## Values -/

/-- A character that stands for itself between quotes. -/
def plainChar (c : Char) : Bool := c ≠ '"' ∧ c ≠ '\\' ∧ 32 ≤ c.toNat

def Plain (s : List Char) : Prop := s.all plainChar = true

instance (s : List Char) : Decidable (Plain s) := inferInstanceAs (Decidable (_ = true))

theorem Plain.append {s t : List Char} (hs : Plain s) (ht : Plain t) : Plain (s ++ t) := by
  rw [Plain, List.all_append, hs, ht]
  rfl

theorem Plain.take {s : List Char} (hs : Plain s) (n : ℕ) : Plain (s.take n) :=
  List.all_eq_true.mpr fun c hc => List.all_eq_true.mp hs c (List.mem_of_mem_take hc)

/-- A string that needs no escapes. -/
structure Text where
  chars : List Char
  plain : Plain chars
  deriving DecidableEq

/-- The characters that stand for themselves. Of a plain list these are all. -/
def text (s : List Char) : Text := ⟨s.filter plainChar, by simp [Plain]⟩

theorem chars_text {s : List Char} (h : Plain s) : (text s).chars = s :=
  List.filter_eq_self.mpr (List.all_eq_true.mp h)

/-- A string of the program that is plain as it stands. -/
def key (s : String) (h : Plain s.toList) : Text := ⟨s.toList, h⟩

inductive Value
  | null
  | bool (b : Bool)
  | int (v : ℤ)
  | str (s : Text)
  | arr (items : List Value)
  | obj (fields : List (Text × Value))

/-- The value of a field of an object. -/
def Value.get? (v : Value) (name : List Char) : Option Value :=
  match v with
  | .obj fields => (fields.find? fun f => f.1 = text name).map Prod.snd
  | _ => none

/-! ## Writing -/

def quoted (s : Text) : List Char := '"' :: s.chars ++ ['"']

mutual

def render : Value → List Char
  | .null => "null".toList
  | .bool true => "true".toList
  | .bool false => "false".toList
  | .int v => decimal v
  | .str s => quoted s
  | .arr items => '[' :: renderItems items ++ [']']
  | .obj fields => '\x7b' :: renderFields fields ++ ['\x7d']

def renderItems : List Value → List Char
  | [] => []
  | [v] => render v
  | v :: w :: vs => render v ++ ',' :: renderItems (w :: vs)

def renderFields : List (Text × Value) → List Char
  | [] => []
  | [(name, v)] => quoted name ++ ':' :: render v
  | (name, v) :: f :: fs => quoted name ++ ':' :: render v ++ ',' :: renderFields (f :: fs)

end

/-- Items are printed with a comma in front of each but the first. -/
theorem renderItems_eq : ∀ vs : List Value, renderItems vs = (separated (vs.map render)).flatten
  | [] => by simp [renderItems, separated]
  | [v] => by simp [renderItems, separated]
  | v :: w :: vs => by
    rw [renderItems, renderItems_eq (w :: vs)]
    simp [separated]

theorem renderFields_eq : ∀ fs : List (Text × Value),
    renderFields fs = (separated (fs.map fun f => quoted f.1 ++ ':' :: render f.2)).flatten
  | [] => by simp [renderFields, separated]
  | [(name, v)] => by simp [renderFields, separated]
  | (name, v) :: f :: fs => by
    rw [renderFields, renderFields_eq (f :: fs)]
    simp [separated]

/-! ## Reading -/

/-- The rest of a string, up to its closing quote. -/
def readString : List Char → Option (Text × List Char)
  | [] => none
  | c :: s =>
    if c = '"' then some (⟨[], rfl⟩, s)
    else if h : plainChar c = true then
      (readString s).map fun r =>
        (⟨c :: r.1.chars, by rw [Plain, List.all_cons, h, r.1.plain]; rfl⟩, r.2)
    else none

/-- Digits that are the decimal number of their value. -/
def readNat (s : List Char) : Option (ℕ × List Char) :=
  let digits := s.takeWhile Char.isDigit
  let n := Nat.ofDigitChars 10 digits 0
  if digits = Nat.toDigits 10 n then some (n, s.dropWhile Char.isDigit) else none

def readInt : List Char → Option (ℤ × List Char)
  | '-' :: s => (readNat s).bind fun r => if r.1 = 0 then none else some (-r.1, r.2)
  | s => (readNat s).map fun r => (r.1, r.2)

mutual

def readValue : ℕ → List Char → Option (Value × List Char)
  | 0, _ => none
  | fuel + 1, s =>
    match s with
    | 'n' :: 'u' :: 'l' :: 'l' :: s => some (.null, s)
    | 't' :: 'r' :: 'u' :: 'e' :: s => some (.bool true, s)
    | 'f' :: 'a' :: 'l' :: 's' :: 'e' :: s => some (.bool false, s)
    | '"' :: s => (readString s).map fun r => (.str r.1, r.2)
    | '[' :: ']' :: s => some (.arr [], s)
    | '[' :: s => (readItems fuel s).map fun r => (.arr r.1, r.2)
    | '\x7b' :: '\x7d' :: s => some (.obj [], s)
    | '\x7b' :: s => (readFields fuel s).map fun r => (.obj r.1, r.2)
    | s => (readInt s).map fun r => (.int r.1, r.2)

/-- One item or more, and the closing bracket. -/
def readItems : ℕ → List Char → Option (List Value × List Char)
  | 0, _ => none
  | fuel + 1, s =>
    match readValue fuel s with
    | some (v, ']' :: s) => some ([v], s)
    | some (v, ',' :: s) => (readItems fuel s).map fun r => (v :: r.1, r.2)
    | _ => none

def readFields : ℕ → List Char → Option (List (Text × Value) × List Char)
  | 0, _ => none
  | fuel + 1, s =>
    match s with
    | '"' :: s =>
      match readString s with
      | some (name, ':' :: s) =>
        match readValue fuel s with
        | some (v, '\x7d' :: s) => some ([(name, v)], s)
        | some (v, ',' :: s) => (readFields fuel s).map fun r => ((name, v) :: r.1, r.2)
        | _ => none
      | _ => none
    | _ => none

end

/-- The text does not go on with a digit. -/
def NoDigit (s : List Char) : Prop := ∀ c ∈ s.head?, c.isDigit = false

theorem noDigit_cons {c : Char} {s : List Char} (h : c.isDigit = false) : NoDigit (c :: s) := by
  intro d hd
  rw [List.head?_cons, Option.mem_some_iff] at hd
  rwa [← hd]

theorem readNat_toDigits (n : ℕ) {rest : List Char} (h : NoDigit rest) :
    readNat (Nat.toDigits 10 n ++ rest) = some (n, rest) := by
  have hdigits : ∀ c ∈ Nat.toDigits 10 n, c.isDigit = true := fun c hc =>
    Nat.isDigit_of_mem_toDigits (by decide) (by decide) hc
  have hrest : rest.takeWhile Char.isDigit = [] ∧ rest.dropWhile Char.isDigit = rest := by
    cases rest with
    | nil => exact ⟨rfl, rfl⟩
    | cons c s =>
      have hc : c.isDigit = false := h c rfl
      simp [hc]
  have htake : (Nat.toDigits 10 n ++ rest).takeWhile Char.isDigit = Nat.toDigits 10 n := by
    rw [List.takeWhile_append_of_pos hdigits, hrest.1, List.append_nil]
  have hdrop : (Nat.toDigits 10 n ++ rest).dropWhile Char.isDigit = rest := by
    rw [List.dropWhile_append_of_pos hdigits, hrest.2]
  rw [readNat, htake, hdrop, Nat.ofDigitChars_ten_toDigits, if_pos rfl]

theorem decimal_natCast (n : ℕ) : decimal n = Nat.toDigits 10 n := by
  unfold decimal
  exact Nat.toList_repr

theorem decimal_negSucc (n : ℕ) : decimal (Int.negSucc n) = '-' :: Nat.toDigits 10 (n + 1) := by
  have hrepr : toString (Int.negSucc n) = "-" ++ (n + 1).repr := rfl
  unfold decimal
  rw [hrepr, String.toList_append, Nat.toList_repr]
  rfl

/-- A number starts with its sign or a digit. -/
theorem decimal_eq_cons (v : ℤ) : ∃ c s, decimal v = c :: s ∧ (c = '-' ∨ c.isDigit = true) := by
  cases v with
  | ofNat n =>
    have hne : Nat.toDigits 10 n ≠ [] := Nat.toDigits_ne_nil
    obtain ⟨c, s, hcs⟩ := List.exists_cons_of_ne_nil hne
    refine ⟨c, s, (decimal_natCast n).trans hcs, Or.inr ?_⟩
    exact Nat.isDigit_of_mem_toDigits (b := 10) (by decide) (by decide) (hcs ▸ List.mem_cons_self)
  | negSucc n => exact ⟨'-', _, decimal_negSucc n, Or.inl rfl⟩

theorem plainChar_of_isDigit {c : Char} (hc : c.isDigit = true) : plainChar c = true := by
  have hlow : 48 ≤ c.toNat := by
    simp only [Char.isDigit, Bool.and_eq_true, decide_eq_true_eq] at hc
    exact hc.1
  have hne : ∀ d : Char, d.isDigit = false → c ≠ d := by
    rintro d hd rfl
    rw [hc] at hd
    cases hd
  have hquote := hne '"' (by decide)
  have hescape := hne '\\' (by decide)
  simp only [plainChar, decide_eq_true_eq]
  exact ⟨hquote, hescape, by omega⟩

theorem plain_decimal (v : ℤ) : Plain (decimal v) := by
  have hnat : ∀ n : ℕ, Plain (Nat.toDigits 10 n) := fun n => List.all_eq_true.mpr fun c hc =>
    plainChar_of_isDigit (Nat.isDigit_of_mem_toDigits (by decide) (by decide) hc)
  cases v with
  | ofNat n => exact (decimal_natCast n).symm ▸ hnat n
  | negSucc n =>
    rw [decimal_negSucc, Plain, List.all_cons, hnat]
    decide

theorem readInt_decimal (v : ℤ) {rest : List Char} (h : NoDigit rest) :
    readInt (decimal v ++ rest) = some (v, rest) := by
  cases v with
  | ofNat n =>
    obtain ⟨c, s, hcs, hc⟩ := decimal_eq_cons n
    have hdigit : c ≠ '-' := by
      rintro rfl
      have hmem : '-' ∈ Nat.toDigits 10 n := by
        rw [← decimal_natCast, hcs]
        exact List.mem_cons_self
      exact absurd (Nat.isDigit_of_mem_toDigits (by decide) (by decide) hmem) (by decide)
    have hread : readInt (decimal n ++ rest) =
        (readNat (decimal n ++ rest)).map fun r => ((r.1 : ℤ), r.2) := by
      rw [hcs, List.cons_append]
      unfold readInt
      split
      · rename_i he
        exact absurd (List.cons.inj he).1 hdigit
      · rfl
    exact hread.trans (by rw [decimal_natCast, readNat_toDigits n h]; rfl)
  | negSucc n =>
    rw [decimal_negSucc, List.cons_append, readInt, readNat_toDigits _ h]
    rfl

theorem readString_quoted (t : Text) (rest : List Char) :
    readString (t.chars ++ '"' :: rest) = some (t, rest) := by
  obtain ⟨s, hs⟩ := t
  induction s with
  | nil => rfl
  | cons c s ih =>
    have hplain := hs
    rw [Plain, List.all_cons, Bool.and_eq_true] at hplain
    obtain ⟨hc, hs'⟩ := hplain
    have hquote : c ≠ '"' := by
      rintro rfl
      exact absurd hc (by decide)
    rw [List.cons_append, readString, if_neg hquote, dif_pos hc, ih hs']
    rfl

/-! ## Values -/

theorem readValue_number {c : Char} (hc : c = '-' ∨ c.isDigit = true) (fuel : ℕ) (s : List Char) :
    readValue (fuel + 1) (c :: s) = (readInt (c :: s)).map fun r => (.int r.1, r.2) := by
  have hother : ∀ d ∈ ['n', 't', 'f', '"', '[', '\x7b'], c ≠ d := by
    rintro d hd rfl
    simp only [List.mem_cons, List.not_mem_nil, or_false] at hd
    rcases hd with rfl | rfl | rfl | rfl | rfl | rfl <;> exact absurd hc (by decide)
  unfold readValue
  split <;> first | rfl | (rename_i he; exact absurd (List.cons.inj he).1 (hother _ (by decide)))

theorem length_render_pos (v : Value) : 0 < (render v).length := by
  cases v with
  | int v =>
    obtain ⟨c, s, hcs, -⟩ := decimal_eq_cons v
    rw [render, hcs, List.length_cons]
    omega
  | bool b => cases b <;> decide
  | null => decide
  | _ => simp [render, quoted]

theorem noDigit_bracket (c : Char) (hc : c ∈ [']', ',', '\x7d']) (s : List Char) :
    NoDigit (c :: s) := by
  refine noDigit_cons ?_
  simp only [List.mem_cons, List.not_mem_nil, or_false] at hc
  rcases hc with rfl | rfl | rfl <;> decide

/-! ## Reading what was written -/

/-- The first character of a value, which decides how it is read, closes nothing. -/
theorem render_eq_cons (v : Value) : ∃ c s, render v = c :: s ∧ c ≠ ']' ∧ c ≠ '\x7d' := by
  cases v with
  | int v =>
    obtain ⟨c, s, hcs, hc⟩ := decimal_eq_cons v
    refine ⟨c, s, hcs, ?_, ?_⟩ <;> rintro rfl <;> revert hc <;> decide
  | bool b => cases b <;> exact ⟨_, _, rfl, by decide, by decide⟩
  | _ => exact ⟨_, _, rfl, by decide, by decide⟩

theorem renderItems_eq_cons (v : Value) (vs : List Value) :
    ∃ c s, renderItems (v :: vs) = c :: s ∧ c ≠ ']' := by
  obtain ⟨c, s, hcs, hc, -⟩ := render_eq_cons v
  cases vs with
  | nil => exact ⟨c, s, by rw [renderItems, hcs], hc⟩
  | cons w vs => exact ⟨c, s ++ ',' :: renderItems (w :: vs), by rw [renderItems, hcs]; rfl, hc⟩

theorem readValue_items {c : Char} (hc : c ≠ ']') (fuel : ℕ) (s : List Char) :
    readValue (fuel + 1) ('[' :: c :: s) = (readItems fuel (c :: s)).map fun r => (.arr r.1, r.2) := by
  rw [readValue]
  simpa using hc

theorem readValue_fields (fuel : ℕ) (s : List Char) :
    readValue (fuel + 1) ('\x7b' :: '"' :: s) =
      (readFields fuel ('"' :: s)).map fun r => (.obj r.1, r.2) := by
  rw [readValue]
  simp

theorem renderFields_eq_cons (f : Text × Value) (fs : List (Text × Value)) :
    ∃ s, renderFields (f :: fs) = '"' :: s := by
  cases fs with
  | nil => exact ⟨_, rfl⟩
  | cons g fs => exact ⟨_, rfl⟩

mutual

/-- A value is read back from its text, whatever follows, unless that is a digit. -/
theorem readValue_render : ∀ (v : Value) {n : ℕ} {r : List Char},
    (render v).length ≤ n → NoDigit r → readValue n (render v ++ r) = some (v, r)
  | v, 0, _, hf, _ => absurd (length_render_pos v) (by omega)
  | .null, fuel + 1, rest, _, _ => rfl
  | .bool true, fuel + 1, rest, _, _ => rfl
  | .bool false, fuel + 1, rest, _, _ => rfl
  | .int v, fuel + 1, rest, _, hrest => by
    obtain ⟨c, s, hcs, hc⟩ := decimal_eq_cons v
    have hread := readInt_decimal v hrest
    rw [hcs, List.cons_append] at hread
    rw [render, hcs, List.cons_append, readValue_number hc, hread]
    rfl
  | .str s, fuel + 1, rest, _, _ => by
    have htext : render (.str s) ++ rest = '"' :: (s.chars ++ '"' :: rest) := by
      simp [render, quoted]
    rw [htext, readValue, readString_quoted]
    rfl
  | .arr [], fuel + 1, rest, _, _ => rfl
  | .arr (v :: vs), fuel + 1, rest, hf, _ => by
    obtain ⟨c, s, hcs, hc⟩ := renderItems_eq_cons v vs
    have hlen : (renderItems (v :: vs)).length < fuel := by
      simp only [render, List.length_cons, List.length_append, List.length_nil] at hf
      omega
    have hread := readItems_render v vs (r := rest) hlen
    have htext : render (.arr (v :: vs)) ++ rest = '[' :: (renderItems (v :: vs) ++ ']' :: rest) := by
      simp [render]
    rw [htext, hcs, List.cons_append, readValue_items hc, ← List.cons_append, ← hcs, hread]
    rfl
  | .obj [], fuel + 1, rest, _, _ => rfl
  | .obj (f :: fs), fuel + 1, rest, hf, _ => by
    obtain ⟨s, hs⟩ := renderFields_eq_cons f fs
    have hlen : (renderFields (f :: fs)).length < fuel := by
      simp only [render, List.length_cons, List.length_append, List.length_nil] at hf
      omega
    have hread := readFields_render f fs (r := rest) hlen
    have htext : render (.obj (f :: fs)) ++ rest =
        '\x7b' :: (renderFields (f :: fs) ++ '\x7d' :: rest) := by
      simp [render]
    rw [htext, hs, List.cons_append, readValue_fields, ← List.cons_append, ← hs, hread]
    rfl

theorem readItems_render : ∀ (v : Value) (vs : List Value) {n : ℕ} {r : List Char},
    (renderItems (v :: vs)).length < n →
      readItems n (renderItems (v :: vs) ++ ']' :: r) = some (v :: vs, r)
  | v, vs, 0, _, hf => absurd hf (by omega)
  | v, [], fuel + 1, rest, hf => by
    rw [renderItems] at hf ⊢
    rw [readItems, readValue_render v (by omega) (noDigit_bracket ']' (by decide) _)]
    rfl
  | v, w :: vs, fuel + 1, rest, hf => by
    rw [renderItems, List.length_append, List.length_cons] at hf
    have hread := readItems_render w vs (n := fuel) (r := rest) (by omega)
    rw [renderItems, List.append_assoc, List.cons_append, readItems,
      readValue_render v (by omega) (noDigit_bracket ',' (by decide) _)]
    exact congrArg (Option.map fun r => (v :: r.1, r.2)) hread

theorem readFields_render : ∀ (f : Text × Value) (fs : List (Text × Value)) {n : ℕ}
    {r : List Char}, (renderFields (f :: fs)).length < n →
      readFields n (renderFields (f :: fs) ++ '\x7d' :: r) = some (f :: fs, r)
  | f, fs, 0, _, hf => absurd hf (by omega)
  | (name, v), [], fuel + 1, rest, hf => by
    have htext : renderFields [(name, v)] ++ '\x7d' :: rest =
        '"' :: (name.chars ++ '"' :: ':' :: (render v ++ '\x7d' :: rest)) := by
      simp [renderFields, quoted]
    simp only [renderFields, quoted, List.length_append, List.length_cons] at hf
    rw [htext, readFields, readString_quoted]
    have hvalue := readValue_render v (n := fuel) (by omega) (noDigit_bracket '\x7d' (by decide) rest)
    simp only [hvalue]
  | (name, v), g :: fs, fuel + 1, rest, hf => by
    have htext : renderFields ((name, v) :: g :: fs) ++ '\x7d' :: rest = '"' :: (name.chars ++
        '"' :: ':' :: (render v ++ ',' :: (renderFields (g :: fs) ++ '\x7d' :: rest))) := by
      simp [renderFields, quoted]
    simp only [renderFields, quoted, List.length_append, List.length_cons] at hf
    have hread := readFields_render g fs (n := fuel) (r := rest) (by omega)
    have hvalue := readValue_render v (n := fuel) (by omega)
      (noDigit_bracket ',' (by decide) (renderFields (g :: fs) ++ '\x7d' :: rest))
    rw [htext, readFields, readString_quoted]
    simp only [hvalue, hread, Option.map_some]

end

/-- A character that is no control character, and so ends no line. -/
def printedChar (c : Char) : Bool := 32 ≤ c.toNat

theorem all_printed_of_plain {s : List Char} (h : Plain s) : s.all printedChar = true := by
  refine List.all_eq_true.mpr fun c hc => ?_
  have hplain := List.all_eq_true.mp h c hc
  simp only [plainChar, decide_eq_true_eq] at hplain
  exact decide_eq_true hplain.2.2

theorem all_printed_quoted (s : Text) : (quoted s).all printedChar = true := by
  simp only [quoted, List.cons_append, List.all_cons, List.all_append, all_printed_of_plain s.plain,
    List.all_nil, Bool.and_true, Bool.true_and]
  decide

mutual

theorem all_printed_render : ∀ v : Value, (render v).all printedChar = true
  | .null => by decide
  | .bool true => by decide
  | .bool false => by decide
  | .int v => all_printed_of_plain (plain_decimal v)
  | .str s => all_printed_quoted s
  | .arr items => by
    simp only [render, List.cons_append, List.all_cons, List.all_append, all_printed_renderItems items,
      List.all_nil, Bool.and_true, Bool.true_and]
    decide
  | .obj fields => by
    simp only [render, List.cons_append, List.all_cons, List.all_append, all_printed_renderFields fields,
      List.all_nil, Bool.and_true, Bool.true_and]
    decide

theorem all_printed_renderItems : ∀ vs : List Value, (renderItems vs).all printedChar = true
  | [] => rfl
  | [v] => by rw [renderItems, all_printed_render v]
  | v :: w :: vs => by
    rw [renderItems, List.all_append, List.all_cons, all_printed_render v, all_printed_renderItems (w :: vs)]
    decide

theorem all_printed_renderFields : ∀ fs : List (Text × Value), (renderFields fs).all printedChar = true
  | [] => rfl
  | [(name, v)] => by
    rw [renderFields, List.all_append, List.all_cons, all_printed_quoted, all_printed_render v]
    decide
  | (name, v) :: f :: fs => by
    rw [renderFields, List.all_append, List.all_cons, List.all_append, List.all_cons, all_printed_quoted,
      all_printed_render v, all_printed_renderFields (f :: fs)]
    decide

end

end Json

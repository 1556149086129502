import Mathlib.Algebra.Order.Ring.Int
import Mathlib.Data.List.Basic

/-! JSON texts as Python's `json` decodes them. A scanner takes a value off the front of a
text; what it has taken does not change when more text comes in behind a delimiter, so
nothing that is cut short is taken for the whole. -/
namespace Json

/-- Strings are their code points, for an escape may leave half a surrogate pair alone.
What a float is plays no part here. -/
inductive Value where
  | null
  | bool (b : Bool)
  | int (n : Int)
  | float
  | string (s : List Nat)
  | array (vs : List Value)
  | object (fields : List (List Nat × Value))

abbrev Scanner (A : Type) := List Char → Option (A × List Char)

def space (c : Char) : Bool := c = ' ' || c = '\t' || c = '\n' || c = '\r'

def skip (t : List Char) : List Char := t.dropWhile space

def hexDigit (c : Char) : Option Nat :=
  if c.isDigit then some (c.toNat - 48)
  else if 'a' ≤ c ∧ c ≤ 'f' then some (c.toNat - 87)
  else if 'A' ≤ c ∧ c ≤ 'F' then some (c.toNat - 55)
  else none

def escape (c : Char) : Option Nat :=
  if c = '\x22' ∨ c = '\\' ∨ c = '/' then some c.toNat
  else if c = 'b' then some 8
  else if c = 'f' then some 12
  else if c = 'n' then some 10
  else if c = 'r' then some 13
  else if c = 't' then some 9
  else none

def hex (a b c d : Char) : Option Nat := do
  pure ((((← hexDigit a) * 16 + (← hexDigit b)) * 16 + (← hexDigit c)) * 16 + (← hexDigit d))

def before (code : Option Nat) (rest : Option (List Nat × List Char)) :
    Option (List Nat × List Char) := do
  let u ← code
  let (us, r) ← rest
  pure (u :: us, r)

def units : Scanner (List Nat)
  | [] => none
  | c :: t =>
    if c = '\x22' then some ([], t)
    else if c = '\\' then
      match t with
      | [] => none
      | e :: t =>
        if e = 'u' then
          match t with
          | a :: b :: c :: d :: t => before (hex a b c d) (units t)
          | _ => none
        else before (escape e) (units t)
    else if c.toNat < 0x20 then none
    else before (some c.toNat) (units t)

/-- Two escapes that are a surrogate pair are one code point. -/
def combine : List Nat → List Nat
  | hi :: lo :: us =>
    if 0xD800 ≤ hi ∧ hi ≤ 0xDBFF ∧ 0xDC00 ≤ lo ∧ lo ≤ 0xDFFF then
      (0x10000 + (hi - 0xD800) * 0x400 + (lo - 0xDC00)) :: combine us
    else hi :: combine (lo :: us)
  | us => us

def string : Scanner (List Nat) := fun t => do
  let (us, r) ← units t
  pure (combine us, r)

def digits : Scanner (List Char) := fun t =>
  if t.takeWhile Char.isDigit = [] then none
  else some (t.takeWhile Char.isDigit, t.dropWhile Char.isDigit)

def natural : Scanner Nat
  | [] => none
  | c :: t =>
    if c = '0' then some (0, t)
    else (digits (c :: t)).map fun p => (Nat.ofDigitChars 10 p.1 0, p.2)

def fraction : List Char → Option (List Char)
  | [] => none
  | c :: t => if c = '.' then (digits t).map Prod.snd else none

def unsign : List Char → List Char
  | [] => []
  | c :: t => if c = '+' ∨ c = '-' then t else c :: t

def exponent : List Char → Option (List Char)
  | [] => none
  | c :: t => if c = 'e' ∨ c = 'E' then (digits (unsign t)).map Prod.snd else none

def number : Scanner Value
  | [] => none
  | c :: t => do
    let (n, r) ← natural (if c = '-' then t else c :: t)
    let behind := (fraction r).getD r
    let isInt := (fraction r).isNone && (exponent behind).isNone
    pure (if isInt then .int (if c = '-' then -n else n) else .float,
      (exponent behind).getD behind)

def literal (word : String) (v : Value) : Scanner Value := fun t =>
  if word.toList.isPrefixOf t then some (v, t.drop word.toList.length) else none

def constant (c : Char) : Option (String × Value) :=
  if c = 'n' then some ("null", .null)
  else if c = 't' then some ("true", .bool true)
  else if c = 'f' then some ("false", .bool false)
  else if c = 'N' then some ("NaN", .float)
  else if c = 'I' then some ("Infinity", .float)
  else none

def items {A : Type} (item : Scanner A) (close : Char) : Nat → Scanner (List A)
  | 0, _ => none
  | n + 1, t => do
    let (a, t) ← item t
    match skip t with
    | [] => none
    | c :: t =>
      if c = close then pure ([a], t)
      else if c = ',' then do
        let (as, t) ← items item close n (skip t)
        pure (a :: as, t)
      else none

def enclosed {A : Type} (item : Scanner A) (close : Char) (n : Nat) : Scanner (List A) := fun t =>
  match skip t with
  | [] => none
  | c :: t => if c = close then some ([], t) else items item close n (c :: t)

def member (value : Scanner Value) : Scanner (List Nat × Value)
  | [] => none
  | c :: t =>
    if c = '\x22' then do
      let (key, t) ← string t
      match skip t with
      | [] => none
      | c :: t =>
        if c = ':' then do
          let (v, t) ← value (skip t)
          pure ((key, v), t)
        else none
    else none

/-- `scan_once`. Every bracket and every item takes a character, so their number is fuel
enough. -/
def value : Nat → Scanner Value
  | 0, _ => none
  | _ + 1, [] => none
  | n + 1, c :: t =>
    if c = '\x22' then (string t).map fun p => (.string p.1, p.2)
    else if c = '\x7b' then (enclosed (member (value n)) '\x7d' n t).map fun p => (.object p.1, p.2)
    else if c = '[' then (enclosed (value n) ']' n t).map fun p => (.array p.1, p.2)
    else match constant c with
      | some (word, v) => literal word v (c :: t)
      | none =>
        if c = '-' ∧ t.head? = some 'I' then literal "-Infinity" .float (c :: t)
        else number (c :: t)

/-- `json.loads`; `none` where it raises. -/
def loads (t : List Char) : Option Value :=
  match value (t.length + 1) (skip t) with
  | some (v, r) => if skip r = [] then some v else none
  | none => none

/-! What more text behind a delimiter changes: nothing. -/

/-- The front of a text at which no number goes on. -/
def Delimited : List Char → Prop
  | [] => False
  | c :: _ => c ≠ '.' ∧ c ≠ 'e' ∧ c ≠ 'E' ∧ c.isDigit = false

theorem delimited_brace (r : List Char) : Delimited ('\x7d' :: r) :=
  ⟨by decide, by decide, by decide, by decide⟩

theorem delimited_bracket (r : List Char) : Delimited (']' :: r) :=
  ⟨by decide, by decide, by decide, by decide⟩

theorem delimited_comma (r : List Char) : Delimited (',' :: r) :=
  ⟨by decide, by decide, by decide, by decide⟩

def Extends {A : Type} (scan scan' : Scanner A) : Prop :=
  ∀ {t : List Char} {a : A} {r : List Char} (q : List Char), scan t = some (a, r) →
    Delimited r → scan' (t ++ q) = some (a, r ++ q)

/-- A scanner that needs no delimiter, for it takes one itself. -/
def Closes {A : Type} (scan scan' : Scanner A) : Prop :=
  ∀ {t : List Char} {a : A} {r : List Char} (q : List Char), scan t = some (a, r) →
    scan' (t ++ q) = some (a, r ++ q)

theorem skip_append {t : List Char} (more : skip t ≠ []) (q : List Char) :
    skip (t ++ q) = skip t ++ q := by
  induction t with
  | nil => exact absurd rfl more
  | cons c t ih =>
    cases blank : space c with
    | true =>
      simp only [skip, List.cons_append, List.dropWhile_cons, blank, if_true] at more ⊢
      exact ih more
    | false => simp [skip, blank]

theorem skip_cons_append {t r : List Char} {c : Char} (next : skip t = c :: r) (q : List Char) :
    skip (t ++ q) = c :: (r ++ q) := by
  rw [skip_append (by rw [next]; exact List.cons_ne_nil c r), next, List.cons_append]

theorem delimited_of_skip {t r : List Char} {c : Char} (next : skip t = c :: r)
    (ends : Delimited (c :: r)) : Delimited t := by
  cases t with
  | nil => cases next
  | cons d t =>
    cases blank : space d with
    | true =>
      simp only [space, Bool.or_eq_true, decide_eq_true_eq] at blank
      rcases blank with ((rfl | rfl) | rfl) | rfl <;> exact ⟨by decide, by decide, by decide, by decide⟩
    | false =>
      simp only [skip, List.dropWhile_cons, blank] at next
      cases next
      exact ends

theorem before_append {code : Option Nat} {rest rest' : Option (List Nat × List Char)}
    {us : List Nat} {r q : List Char}
    (further : ∀ us r, rest = some (us, r) → rest' = some (us, r ++ q))
    (read : before code rest = some (us, r)) : before code rest' = some (us, r ++ q) := by
  obtain ⟨u, coded, read⟩ := Option.bind_eq_some_iff.mp read
  obtain ⟨⟨us', r'⟩, inner, same⟩ := Option.bind_eq_some_iff.mp read
  cases same
  rw [before, coded, further us' r inner]
  rfl

section units
attribute [local simp] units

theorem units_quote (t : List Char) : units ('\x22' :: t) = some ([], t) := by
  rw [units.eq_def]
  exact if_pos rfl

theorem units_cut {t : List Char}
    (few : ∀ (a b c d : Char) (t' : List Char), t = a :: b :: c :: d :: t' → False) :
    units ('\\' :: 'u' :: t) = none := by
  rw [units.eq_def]
  simp only [if_neg (show ¬ '\\' = '\x22' by decide), if_true]

theorem units_escape {e : Char} (plain : e ≠ 'u') (t : List Char) :
    units ('\\' :: e :: t) = before (escape e) (units t) := by
  rw [units.eq_def]
  simp only [if_neg (show ¬ '\\' = '\x22' by decide), if_true, if_neg plain]

theorem units_control {c : Char} (quote : c ≠ '\x22') (escaped : c ≠ '\\')
    (control : c.toNat < 0x20) (t : List Char) : units (c :: t) = none := by
  rw [units.eq_def]
  simp only [if_neg quote, if_neg escaped, if_pos control]

theorem units_plain {c : Char} (quote : c ≠ '\x22') (escaped : c ≠ '\\')
    (control : ¬ c.toNat < 0x20) (t : List Char) :
    units (c :: t) = before (some c.toNat) (units t) := by
  rw [units.eq_def]
  simp only [if_neg quote, if_neg escaped, if_neg control]

theorem units_append : Closes units units := by
  intro t us r q read
  induction t using units.induct generalizing us r with
  | case1 => cases read
  | case2 t =>
    rw [units_quote] at read
    cases read
    exact units_quote (t ++ q)
  | case3 => cases read
  | case4 a b c d t _ ih => exact before_append (fun _ _ inner => ih inner) read
  | case5 t few =>
    rw [units_cut few] at read
    cases read
  | case6 e t plain _ ih =>
    rw [units_escape plain] at read
    rw [List.cons_append, List.cons_append, units_escape plain]
    exact before_append (fun _ _ inner => ih inner) read
  | case7 c t quote escaped control =>
    rw [units_control quote escaped control] at read
    cases read
  | case8 c t quote escaped control ih =>
    rw [units_plain quote escaped control] at read
    rw [List.cons_append, units_plain quote escaped control]
    exact before_append (fun _ _ inner => ih inner) read

end units

theorem string_append : Closes string string := by
  intro t s r q read
  obtain ⟨⟨us, r'⟩, inner, same⟩ := Option.bind_eq_some_iff.mp read
  cases same
  simp only [string, units_append q inner]
  rfl

theorem run_append {t : List Char} (more : t.dropWhile Char.isDigit ≠ []) (q : List Char) :
    (t ++ q).takeWhile Char.isDigit = t.takeWhile Char.isDigit ∧
      (t ++ q).dropWhile Char.isDigit = t.dropWhile Char.isDigit ++ q := by
  induction t with
  | nil => exact absurd rfl more
  | cons c t ih =>
    cases digit : c.isDigit with
    | true =>
      simp only [List.dropWhile_cons, List.takeWhile_cons, List.cons_append, digit, if_true] at more ⊢
      obtain ⟨taken, left⟩ := ih more
      exact ⟨by rw [taken], left⟩
    | false => simp [digit]

theorem digits_append {t ds r : List Char} (read : digits t = some (ds, r)) (more : r ≠ [])
    (q : List Char) : digits (t ++ q) = some (ds, r ++ q) := by
  unfold digits at read ⊢
  by_cases none : t.takeWhile Char.isDigit = []
  · rw [if_pos none] at read
    cases read
  · rw [if_neg none] at read
    cases read
    obtain ⟨taken, left⟩ := run_append more q
    rw [taken, left, if_neg none]

theorem ne_nil_of_delimited {t : List Char} (ends : Delimited t) : t ≠ [] := by
  rintro rfl
  exact ends

theorem natural_append {t : List Char} {n : Nat} {r : List Char} (read : natural t = some (n, r))
    (more : r ≠ []) (q : List Char) : natural (t ++ q) = some (n, r ++ q) := by
  cases t with
  | nil => cases read
  | cons c t =>
    by_cases zero : c = '0'
    · simp only [natural, if_pos zero, List.cons_append] at read ⊢
      cases read
      rfl
    · simp only [natural, if_neg zero, List.cons_append] at read ⊢
      obtain ⟨⟨ds, r'⟩, run, same⟩ := Option.map_eq_some_iff.mp read
      cases same
      rw [← List.cons_append, digits_append run more q]
      rfl

theorem unsign_append {t : List Char} (more : t ≠ []) (q : List Char) :
    unsign (t ++ q) = unsign t ++ q := by
  cases t with
  | nil => exact absurd rfl more
  | cons c t =>
    simp only [unsign, List.cons_append]
    split <;> rfl

theorem exponent_append {t : List Char} (ends : Delimited ((exponent t).getD t)) (q : List Char) :
    exponent (t ++ q) = (exponent t).map (· ++ q) := by
  cases t with
  | nil => cases ends
  | cons c t =>
    by_cases letter : c = 'e' ∨ c = 'E'
    · simp only [exponent, if_pos letter, List.cons_append] at ends ⊢
      cases run : digits (unsign t) with
      | none =>
        rw [run] at ends
        obtain ⟨_, small, large, _⟩ := ends
        exact absurd letter (not_or.mpr ⟨small, large⟩)
      | some p =>
        obtain ⟨ds, r⟩ := p
        rw [run] at ends
        have signed : t ≠ [] := by
          rintro rfl
          cases run
        rw [unsign_append signed, digits_append run (ne_nil_of_delimited ends)]
        rfl
    · simp only [exponent, if_neg letter, List.cons_append, Option.map_none]

theorem fraction_append {t : List Char}
    (ends : Delimited ((exponent ((fraction t).getD t)).getD ((fraction t).getD t)))
    (more : (fraction t).getD t ≠ []) (q : List Char) :
    fraction (t ++ q) = (fraction t).map (· ++ q) := by
  cases t with
  | nil => cases ends
  | cons c t =>
    by_cases point : c = '.'
    · subst point
      simp only [fraction, if_true, List.cons_append] at ends more ⊢
      cases run : digits t with
      | none =>
        rw [run] at ends
        exact absurd rfl ends.1
      | some p =>
        obtain ⟨ds, r⟩ := p
        rw [run] at more
        rw [digits_append run more]
        rfl
    · simp only [fraction, if_neg point, List.cons_append, Option.map_none]

theorem getD_append (t q : List Char) (o : Option (List Char)) :
    (o.map (· ++ q)).getD (t ++ q) = o.getD t ++ q := by
  cases o <;> rfl

theorem number_append : Extends number number := by
  intro t v r q read ends
  cases t with
  | nil => cases read
  | cons c t =>
    obtain ⟨⟨n, rest⟩, whole, same⟩ := Option.bind_eq_some_iff.mp read
    dsimp only at same
    cases same
    have behind : (fraction rest).getD rest ≠ [] := by
      intro none
      rw [none] at ends
      exact ends
    have more : rest ≠ [] := by
      rintro rfl
      exact behind rfl
    have unsigned : natural (if c = '-' then t ++ q else c :: (t ++ q)) = some (n, rest ++ q) := by
      rw [← natural_append whole more q]
      split <;> rfl
    have fractional := fraction_append ends behind q
    have exponential := exponent_append ends q
    simp only [List.cons_append, number, unsigned, bind, Option.bind, fractional, getD_append,
      exponential, Option.isNone_map, pure]

theorem literal_append {word : String} {v : Value} : Closes (literal word v) (literal word v) := by
  intro t w r q read
  unfold literal at read ⊢
  by_cases front : word.toList.isPrefixOf t
  · rw [if_pos front] at read
    cases read
    have within := List.isPrefixOf_iff_prefix.mp front
    have kept := List.isPrefixOf_iff_prefix.mpr (within.trans (List.prefix_append t q))
    rw [if_pos kept, List.drop_append_of_le_length within.length_le]
  · rw [if_neg front] at read
    cases read

section
variable {A : Type} {item item' : Scanner A}

theorem items_nil (nothing : item [] = none) (close : Char) (n : Nat) :
    items item close n [] = none := by
  cases n with
  | zero => rfl
  | succ n => rw [items, nothing]; rfl

theorem items_append {close : Char} (bracket : ∀ r, Delimited (close :: r))
    (nothing : item [] = none) (further : Extends item item') {n m : Nat} (enough : n ≤ m) :
    Closes (items item close n) (items item' close m) := by
  intro t as r q read
  induction n generalizing m t as r with
  | zero => cases read
  | succ n ih =>
    cases m with
    | zero => cases enough
    | succ m =>
      obtain ⟨⟨a, rest⟩, first, read⟩ := Option.bind_eq_some_iff.mp read
      dsimp only at read
      cases next : skip rest with
      | nil =>
        rw [next] at read
        cases read
      | cons c rest' =>
        rw [next] at read
        dsimp only at read
        by_cases ended : c = close
        · rw [if_pos ended] at read
          cases read
          have ends := delimited_of_skip next (ended ▸ bracket _)
          simp only [items, further q first ends, bind, Option.bind, skip_cons_append next,
            if_pos ended, pure]
        · by_cases comma : c = ','
          · rw [if_neg ended, if_pos comma] at read
            obtain ⟨⟨as', r'⟩, others, same⟩ := Option.bind_eq_some_iff.mp read
            cases same
            have more : skip rest' ≠ [] := by
              intro ended
              rw [ended, items_nil nothing] at others
              cases others
            have ends : Delimited rest := by
              subst comma
              exact delimited_of_skip next (delimited_comma _)
            have behind := ih (Nat.le_of_succ_le_succ enough) others
            simp only [items, further q first ends, bind, Option.bind, skip_cons_append next,
              if_neg ended, if_pos comma, skip_append more, behind, pure]
          · rw [if_neg ended, if_neg comma] at read
            cases read

theorem enclosed_append {close : Char} (bracket : ∀ r, Delimited (close :: r))
    (nothing : item [] = none) (further : Extends item item') {n m : Nat} (enough : n ≤ m) :
    Closes (enclosed item close n) (enclosed item' close m) := by
  intro t as r q read
  unfold enclosed at read ⊢
  cases next : skip t with
  | nil =>
    rw [next] at read
    cases read
  | cons c rest =>
    rw [next] at read
    rw [skip_cons_append next]
    dsimp only at read ⊢
    by_cases empty : c = close
    · rw [if_pos empty] at read ⊢
      cases read
      rfl
    · rw [if_neg empty] at read ⊢
      exact items_append bracket nothing further enough q read

end

theorem member_append {scan scan' : Scanner Value} (nothing : scan [] = none)
    (further : Extends scan scan') : Extends (member scan) (member scan') := by
  intro t kv r q read ends
  cases t with
  | nil => cases read
  | cons c t =>
    by_cases quote : c = '\x22'
    · simp only [member, if_pos quote, List.cons_append] at read ⊢
      obtain ⟨⟨key, rest⟩, named, read⟩ := Option.bind_eq_some_iff.mp read
      dsimp only at read
      cases next : skip rest with
      | nil =>
        rw [next] at read
        cases read
      | cons c rest' =>
        rw [next] at read
        dsimp only at read
        by_cases colon : c = ':'
        · rw [if_pos colon] at read
          obtain ⟨⟨v, r'⟩, valued, same⟩ := Option.bind_eq_some_iff.mp read
          cases same
          have more : skip rest' ≠ [] := by
            intro ended
            rw [ended, nothing] at valued
            cases valued
          simp only [string_append q named, bind, Option.bind, skip_cons_append next, if_pos colon,
            skip_append more, further q valued ends, pure]
        · rw [if_neg colon] at read
          cases read
    · simp only [member, if_neg quote] at read
      cases read

theorem value_nil (n : Nat) : value n [] = none := by
  cases n <;> rfl

theorem natural_digit {t r : List Char} {n : Nat} (read : natural t = some (n, r)) :
    ∃ d u, t = d :: u ∧ d.isDigit := by
  cases t with
  | nil => cases read
  | cons d u =>
    refine ⟨d, u, rfl, ?_⟩
    by_cases zero : d = '0'
    · rw [zero]; decide
    · cases digit : d.isDigit with
      | true => rfl
      | false => simp [natural, zero, digits, digit] at read

theorem finite_of_number {c : Char} {t r : List Char} {v : Value}
    (read : number (c :: t) = some (v, r)) (q : List Char) :
    ¬ (c = '-' ∧ (t ++ q).head? = some 'I') := by
  rintro ⟨rfl, infinite⟩
  obtain ⟨⟨n, rest⟩, whole, _⟩ := Option.bind_eq_some_iff.mp read
  rw [if_pos rfl] at whole
  obtain ⟨d, u, rfl, digit⟩ := natural_digit whole
  rw [List.cons_append, List.head?_cons, Option.some.injEq] at infinite
  rw [infinite] at digit
  cases digit

theorem map_append {A : Type} {make : A → Value} {scan scan' : Scanner A} (closes : Closes scan scan')
    {t : List Char} {v : Value} {r : List Char} (q : List Char)
    (read : (scan t).map (fun p => (make p.1, p.2)) = some (v, r)) :
    (scan' (t ++ q)).map (fun p => (make p.1, p.2)) = some (v, r ++ q) := by
  obtain ⟨⟨a, r'⟩, inner, same⟩ := Option.map_eq_some_iff.mp read
  cases same
  rw [closes q inner]
  rfl

theorem object_append {n m : Nat} (enough : n ≤ m) (further : Extends (value n) (value m))
    {t : List Char} {v : Value} {r : List Char} (q : List Char)
    (read : value (n + 1) ('\x7b' :: t) = some (v, r)) :
    value (m + 1) ('\x7b' :: t ++ q) = some (v, r ++ q) := by
  simp only [value, if_neg (show ¬ '\x7b' = '\x22' by decide), if_true, List.cons_append] at read ⊢
  exact map_append (enclosed_append delimited_brace rfl (member_append (value_nil n) further) enough) q read

theorem array_append {n m : Nat} (enough : n ≤ m) (further : Extends (value n) (value m))
    {t : List Char} {v : Value} {r : List Char} (q : List Char)
    (read : value (n + 1) ('[' :: t) = some (v, r)) :
    value (m + 1) ('[' :: t ++ q) = some (v, r ++ q) := by
  simp only [value, if_neg (show ¬ '[' = '\x22' by decide), if_neg (show ¬ '[' = '\x7b' by decide),
    if_true, List.cons_append] at read ⊢
  exact map_append (enclosed_append delimited_bracket (value_nil n) further enough) q read

/-- By induction on the depth; the cases are those of the first character. -/
theorem value_append {n m : Nat} (enough : n ≤ m) : Extends (value n) (value m) := by
  intro t v r q read ends
  induction n generalizing m t v r q with
  | zero => cases read
  | succ n ih =>
    cases m with
    | zero => cases enough
    | succ m =>
      have less := Nat.le_of_succ_le_succ enough
      have inner : Extends (value n) (value m) := fun q read ends => ih less q read ends
      cases t with
      | nil => cases read
      | cons c t =>
        by_cases object : c = '\x7b'
        · subst object
          exact object_append less inner q read
        by_cases array : c = '['
        · subst array
          exact array_append less inner q read
        rw [List.cons_append]
        simp only [value, if_neg object, if_neg array] at read ⊢
        by_cases quote : c = '\x22'
        · rw [if_pos quote] at read ⊢
          exact map_append string_append q read
        rw [if_neg quote] at read ⊢
        cases announced : constant c with
        | some p =>
          rw [announced] at read
          exact literal_append q read
        | none =>
          rw [announced] at read
          dsimp only at read ⊢
          by_cases negative : c = '-' ∧ t.head? = some 'I'
          · have still : c = '-' ∧ (t ++ q).head? = some 'I' := by
              rw [List.head?_append, negative.2]
              exact ⟨negative.1, rfl⟩
            rw [if_pos negative] at read
            rw [if_pos still]
            exact literal_append q read
          · rw [if_neg negative] at read
            rw [if_neg (finite_of_number read q)]
            exact number_append q read ends

theorem object_extends {n m : Nat} (enough : n ≤ m) {t : List Char} {v : Value} {r : List Char}
    (read : value n ('\x7b' :: t) = some (v, r)) (q : List Char) :
    value m ('\x7b' :: t ++ q) = some (v, r ++ q) := by
  cases n with
  | zero => cases read
  | succ n =>
    cases m with
    | zero => cases enough
    | succ m =>
      have less := Nat.le_of_succ_le_succ enough
      exact object_append less (value_append less) q read

theorem skip_object (t : List Char) : skip ('\x7b' :: t) = '\x7b' :: t := rfl

theorem loads_object {n : Nat} {t r : List Char} {v : Value}
    (read : value n ('\x7b' :: t) = some (v, [])) (enough : n ≤ t.length + 2) (blank : skip r = []) :
    loads ('\x7b' :: t ++ r) = some v := by
  have whole := object_extends (m := ('\x7b' :: t ++ r).length + 1) (by simp; omega) read r
  rw [loads, List.cons_append, skip_object, ← List.cons_append, whole]
  exact if_pos blank

/-- What is left of an object that is cut is no JSON text. -/
theorem loads_cut {n : Nat} {t q : List Char} {v : Value}
    (whole : value n ('\x7b' :: t ++ q) = some (v, [])) (cut : q ≠ []) :
    loads ('\x7b' :: t) = none := by
  unfold loads
  rw [skip_object]
  cases read : value (('\x7b' :: t).length + 1) ('\x7b' :: t) with
  | none => rfl
  | some p =>
    obtain ⟨w, r⟩ := p
    rw [List.cons_append] at whole
    have longer := object_extends (Nat.le_max_right n (('\x7b' :: t).length + 1)) read q
    have again := object_extends (Nat.le_max_left n (('\x7b' :: t).length + 1)) whole []
    simp only [List.append_nil, List.cons_append] at again longer
    have same := Option.some.inj (longer.symm.trans again)
    have rest : r ++ q = [] := congrArg Prod.snd same
    exact absurd (List.append_eq_nil_iff.mp rest).2 cut

/-! What is read of texts that are written plainly. -/

def plain (c : Char) : Bool := c ≠ '\x22' && c ≠ '\\' && 0x20 ≤ c.toNat && c.toNat < 0x80

theorem units_chars {cs : List Char} (chars : cs.all plain) (t : List Char) :
    units (cs ++ '\x22' :: t) = some (cs.map Char.toNat, t) := by
  induction cs with
  | nil => exact units_quote t
  | cons c cs ih =>
    rw [List.all_cons, Bool.and_eq_true] at chars
    obtain ⟨first, rest⟩ := chars
    simp only [plain, ne_eq, Bool.and_eq_true, decide_eq_true_eq] at first
    rw [List.cons_append, units_plain first.1.1.1 first.1.1.2 (Nat.not_lt.mpr first.1.2), ih rest]
    rfl

theorem combine_small {us : List Nat} (small : ∀ u ∈ us, u < 0xD800) : combine us = us := by
  induction us using combine.induct with
  | case1 hi lo us pair ih => exact absurd (small hi List.mem_cons_self) (Nat.not_lt.mpr pair.1)
  | case2 hi lo us alone ih =>
    rw [combine, if_neg alone, ih fun u member => small u (List.mem_cons_of_mem hi member)]
  | case3 us short => rw [combine]; exact short

theorem string_chars {cs : List Char} (chars : cs.all plain) (t : List Char) :
    string (cs ++ '\x22' :: t) = some (cs.map Char.toNat, t) := by
  have small : ∀ u ∈ cs.map Char.toNat, u < 0xD800 := by
    intro u member
    obtain ⟨c, within, rfl⟩ := List.mem_map.mp member
    have ascii := List.all_eq_true.mp chars c within
    simp only [plain, ne_eq, Bool.and_eq_true, decide_eq_true_eq] at ascii
    exact Nat.lt_trans ascii.2 (by decide)
  simp only [string, units_chars chars, bind, Option.bind, combine_small small, pure]

theorem ne_of_digit {c d : Char} (digit : c.isDigit) (other : d.isDigit = false) : c ≠ d := by
  rintro rfl
  rw [digit] at other
  cases other

theorem constant_digit {c : Char} (digit : c.isDigit) : constant c = none := by
  have null := ne_of_digit (d := 'n') digit rfl
  have truth := ne_of_digit (d := 't') digit rfl
  have falsity := ne_of_digit (d := 'f') digit rfl
  have nan := ne_of_digit (d := 'N') digit rfl
  have infinity := ne_of_digit (d := 'I') digit rfl
  simp only [constant, if_neg null, if_neg truth, if_neg falsity, if_neg nan, if_neg infinity]

theorem digit_of_toDigits {n : Nat} {c : Char} (member : c ∈ Nat.toDigits 10 n) : c.isDigit :=
  Nat.isDigit_of_mem_toDigits (by decide) (by decide) member

theorem leading_digit {n : Nat} {t : List Char} (written : Nat.toDigits 10 n = '0' :: t) :
    n = 0 := by
  induction n using Nat.strongRecOn generalizing t with
  | ind n ih =>
    by_cases small : n < 10
    · rw [Nat.toDigits_of_lt_base small] at written
      exact Nat.digitChar_eq_zero.mp (List.cons.inj written).1
    · rw [Nat.toDigits_of_base_le (by decide) (Nat.not_lt.mp small)] at written
      have shorter : n / 10 < n := Nat.div_lt_self (by omega) (by decide)
      cases front : Nat.toDigits 10 (n / 10) with
      | nil => exact absurd front Nat.toDigits_ne_nil
      | cons c u =>
        rw [front, List.cons_append] at written
        have zero := ih _ shorter (front.trans (by rw [(List.cons.inj written).1]))
        omega

theorem digits_toDigits (n : Nat) {r : List Char} (ends : Delimited r) :
    digits (Nat.toDigits 10 n ++ r) = some (Nat.toDigits 10 n, r) := by
  have all : ∀ c ∈ Nat.toDigits 10 n, c.isDigit = true := fun c member => digit_of_toDigits member
  cases r with
  | nil => cases ends
  | cons c r =>
    have stop : c.isDigit = false := ends.2.2.2
    unfold digits
    rw [List.takeWhile_append_of_pos all, List.dropWhile_append_of_pos all]
    simp [stop, Nat.toDigits_ne_nil]

theorem natural_toDigits (n : Nat) {r : List Char} (ends : Delimited r) :
    natural (Nat.toDigits 10 n ++ r) = some (n, r) := by
  have run := digits_toDigits n ends
  have value : Nat.ofDigitChars 10 (Nat.toDigits 10 n) 0 = n := Nat.ofDigitChars_ten_toDigits
  cases written : Nat.toDigits 10 n with
  | nil => exact absurd written Nat.toDigits_ne_nil
  | cons c t =>
    by_cases zero : c = '0'
    · subst zero
      have none := leading_digit written
      subst none
      rw [Nat.toDigits_zero] at written
      cases written
      rfl
    · rw [written, List.cons_append] at run
      rw [written] at value
      simp only [List.cons_append, natural, if_neg zero, run, Option.map_some, value]

theorem number_digits {c : Char} {t r : List Char} {n : Nat} (ends : Delimited r)
    (unsigned : natural (if c = '-' then t else c :: t) = some (n, r)) :
    number (c :: t) = some (.int (if c = '-' then -n else n), r) := by
  cases r with
  | nil => cases ends
  | cons d r =>
    obtain ⟨point, small, large, _⟩ := ends
    have integral : fraction (d :: r) = none := if_neg point
    have unscaled : exponent (d :: r) = none := if_neg (not_or.mpr ⟨small, large⟩)
    simp only [number, unsigned, bind, Option.bind, integral, unscaled, Option.getD_none, pure]
    rfl

theorem toList_int (i : Int) : (toString i).toList =
    if 0 ≤ i then Nat.toDigits 10 i.toNat else '-' :: Nat.toDigits 10 (-i).toNat := by
  rw [Int.toString_eq_repr, Int.repr_eq_if]
  split
  · exact Nat.toList_repr
  · rw [String.toList_append, Nat.toList_repr]
    rfl

theorem chars_int {i : Int} {c : Char} (member : c ∈ (toString i).toList) : c = '-' ∨ c.isDigit := by
  rw [toList_int] at member
  split at member
  · exact Or.inr (digit_of_toDigits member)
  · rcases List.mem_cons.mp member with sign | digit
    · exact Or.inl sign
    · exact Or.inr (digit_of_toDigits digit)

theorem length_int {i : Int} {k : Nat} (positive : 0 < k) (small : i.natAbs < 10 ^ k) :
    (toString i).toList.length ≤ k + 1 := by
  have digits {n : Nat} (less : n < 10 ^ k) : (Nat.toDigits 10 n).length ≤ k :=
    (Nat.length_toDigits_le_iff (by decide) positive).mpr less
  rw [toList_int]
  split
  · exact Nat.le_succ_of_le (digits (by omega))
  · exact Nat.succ_le_succ (digits (by omega))

theorem value_int {m : Nat} (i : Int) {r : List Char} (ends : Delimited r) :
    value (m + 1) ((toString i).toList ++ r) = some (.int i, r) := by
  rw [toList_int]
  split
  · rename_i positive
    have unsigned := natural_toDigits i.toNat ends
    cases digits : Nat.toDigits 10 i.toNat with
    | nil => exact absurd digits Nat.toDigits_ne_nil
    | cons c t =>
      have digit : c.isDigit := digit_of_toDigits (digits ▸ List.mem_cons_self)
      have sign := ne_of_digit (d := '-') digit rfl
      rw [digits, List.cons_append] at unsigned
      rw [List.cons_append]
      simp only [value, if_neg (ne_of_digit (d := '\x22') digit rfl),
        if_neg (ne_of_digit (d := '\x7b') digit rfl), if_neg (ne_of_digit (d := '[') digit rfl),
        constant_digit digit]
      rw [if_neg (fun h => sign h.1), number_digits ends (by rw [if_neg sign]; exact unsigned),
        if_neg sign, Int.toNat_of_nonneg positive]
  · rename_i negative
    have unsigned := natural_toDigits (-i).toNat ends
    have read := number_digits (c := '-') ends (by rw [if_pos rfl]; exact unsigned)
    have finite : (Nat.toDigits 10 (-i).toNat ++ r).head? ≠ some 'I' := fun infinite =>
      finite_of_number read [] ⟨rfl, by rwa [List.append_nil]⟩
    rw [List.cons_append]
    simp only [value, if_neg (show ¬ '-' = '\x22' by decide), if_neg (show ¬ '-' = '\x7b' by decide),
      if_neg (show ¬ '-' = '[' by decide), show constant '-' = none from rfl]
    rw [if_neg (fun h => finite h.2), read, if_pos rfl, Int.toNat_of_nonneg (by omega), Int.neg_neg]

theorem int_injective {i j : Int} (same : toString i = toString j) : i = j := by
  have read := value_int (m := 0) i (delimited_brace [])
  rw [same, value_int j (delimited_brace [])] at read
  cases read
  rfl

theorem value_literal {m : Nat} {c : Char} {w r : List Char} {word : String} {v : Value}
    (announced : constant c = some (word, v)) (spelled : word.toList = c :: w) :
    value (m + 1) (c :: w ++ r) = some (v, r) := by
  have other {d : Char} (silent : constant d = none) : c ≠ d := by
    rintro rfl
    rw [silent] at announced
    cases announced
  have front : (c :: w).isPrefixOf (c :: (w ++ r)) :=
    List.isPrefixOf_iff_prefix.mpr (List.prefix_append (c :: w) r)
  rw [List.cons_append]
  simp only [value, if_neg (other (d := '\x22') rfl), if_neg (other (d := '\x7b') rfl),
    if_neg (other (d := '[') rfl), announced, literal, spelled, if_pos front]
  rw [← List.cons_append, List.drop_left]

theorem value_chars {m : Nat} {cs : List Char} (chars : cs.all plain) (r : List Char) :
    value (m + 1) ('\x22' :: (cs ++ '\x22' :: r)) = some (.string (cs.map Char.toNat), r) := by
  simp only [value, if_true, string_chars chars, Option.map_some]

theorem skip_int (i : Int) (r : List Char) :
    skip ((toString i).toList ++ r) = (toString i).toList ++ r := by
  rw [toList_int]
  split
  · cases digits : Nat.toDigits 10 i.toNat with
    | nil => exact absurd digits Nat.toDigits_ne_nil
    | cons c t =>
      have digit : c.isDigit := digit_of_toDigits (digits ▸ List.mem_cons_self)
      have solid : space c = false := by
        simp [space, ne_of_digit (d := ' ') digit rfl, ne_of_digit (d := '\t') digit rfl,
          ne_of_digit (d := '\n') digit rfl, ne_of_digit (d := '\r') digit rfl]
      rw [skip, List.cons_append, List.dropWhile_cons, solid]
      rfl
  · rfl

theorem member_chars {scan : Scanner Value} {key t r : List Char} {v : Value}
    (chars : key.all plain) (glued : skip t = t) (valued : scan t = some (v, r)) :
    member scan ('\x22' :: (key ++ '\x22' :: ':' :: t)) = some ((key.map Char.toNat, v), r) := by
  have colon : skip (':' :: t) = ':' :: t := rfl
  simp only [member, if_true, string_chars chars, bind, Option.bind, colon, glued, valued, pure]

section
variable {A : Type} {item : Scanner A} {close : Char}

theorem items_last {t r : List Char} {a : A} {n : Nat} (bracket : space close = false)
    (last : item t = some (a, close :: r)) : items item close (n + 1) t = some ([a], r) := by
  have here : skip (close :: r) = close :: r := by simp [skip, bracket]
  simp only [items, last, bind, Option.bind, here, if_true, pure]

theorem items_comma {t u r : List Char} {a : A} {as : List A} {n : Nat} (other : close ≠ ',')
    (glued : skip u = u) (first : item t = some (a, ',' :: u))
    (rest : items item close n u = some (as, r)) :
    items item close (n + 1) t = some (a :: as, r) := by
  have comma : skip (',' :: u) = ',' :: u := rfl
  simp only [items, first, bind, Option.bind, comma, if_neg other.symm, if_true, glued, rest, pure]

end

theorem value_object {n : Nat} {t r : List Char} {fields : List (List Nat × Value)}
    (read : items (member (value n)) '\x7d' n ('\x22' :: t) = some (fields, r)) :
    value (n + 1) ('\x7b' :: '\x22' :: t) = some (.object fields, r) := by
  have here : skip ('\x22' :: t) = '\x22' :: t := rfl
  have inside : enclosed (member (value n)) '\x7d' n ('\x22' :: t) = some (fields, r) := by
    rw [enclosed, here, ← read]
    exact if_neg (by decide)
  rw [value, if_neg (by decide), if_pos rfl, inside]
  rfl

end Json

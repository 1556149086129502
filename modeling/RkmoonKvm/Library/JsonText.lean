import Mathlib.Data.List.Forall2
import Mathlib.Data.List.TakeWhile
import RkmoonKvm.Library.Json

/-! JSON texts as Python's `json.dumps` writes them with an indent, and that each is read as what it was written
from. -/
namespace Json

/-! Strings, in ASCII. -/

def unicode (u : Nat) : List Char :=
  ['\\', 'u', Nat.digitChar (u / 4096 % 16), Nat.digitChar (u / 256 % 16), Nat.digitChar (u / 16 % 16),
    Nat.digitChar (u % 16)]

def codeUnits (u : Nat) : List Nat :=
  if u < 0x10000 then [u] else [0xD800 + (u - 0x10000) / 0x400, 0xDC00 + (u - 0x10000) % 0x400]

def letter (u : Nat) : Option Char :=
  if u = 0x22 ∨ u = 0x5C then some (Char.ofNat u)
  else if u = 8 then some 'b'
  else if u = 9 then some 't'
  else if u = 10 then some 'n'
  else if u = 12 then some 'f'
  else if u = 13 then some 'r'
  else none

def escaped (u : Nat) : List Char :=
  match letter u with
  | some e => ['\\', e]
  | none => if 0x20 ≤ u ∧ u < 0x7F then [Char.ofNat u] else (codeUnits u).flatMap unicode

def quoted (s : List Nat) : List Char := '\x22' :: s.flatMap escaped ++ ['\x22']

/-- Two code points that would be taken for the halves of one. -/
def Halves (hi lo : Nat) : Prop := 0xD800 ≤ hi ∧ hi ≤ 0xDBFF ∧ 0xDC00 ≤ lo ∧ lo ≤ 0xDFFF

structure Text (s : List Nat) : Prop where
  points : ∀ u ∈ s, u < 0x110000
  alone : s.IsChain fun hi lo => ¬ Halves hi lo

theorem text_chars (cs : List Char) : Text (cs.map Char.toNat) := by
  have scalar (c : Char) : c.toNat < 0xD800 ∨ 0xDFFF < c.toNat ∧ c.toNat < 0x110000 := c.valid
  constructor
  case points =>
    intro u member
    obtain ⟨c, -, rfl⟩ := List.mem_map.mp member
    rcases scalar c with low | ⟨-, high⟩ <;> omega
  case alone =>
    have apart (c d : Char) : ¬ Halves c.toNat d.toNat := by
      intro halves
      have first := halves.1
      have last := halves.2.1
      rcases scalar c with low | ⟨high, -⟩ <;> omega
    induction cs with
    | nil => exact .nil
    | cons c cs ih =>
      cases cs with
      | nil => exact .singleton c.toNat
      | cons d cs => exact .cons_cons (apart c d) ih

theorem hexDigit_digitChar {d : Nat} (small : d < 16) : hexDigit (Nat.digitChar d) = some d := by
  have all : ∀ d < 16, hexDigit (Nat.digitChar d) = some d := by decide
  exact all d small

theorem units_unicode {u : Nat} (short : u < 0x10000) (t : List Char) :
    units (unicode u ++ t) = before (some u) (units t) := by
  have digit (n : Nat) : hexDigit (Nat.digitChar (n % 16)) = some (n % 16) :=
    hexDigit_digitChar (Nat.mod_lt n (by decide))
  have joined : ((u / 4096 % 16 * 16 + u / 256 % 16) * 16 + u / 16 % 16) * 16 + u % 16 = u := by omega
  have read : hex (Nat.digitChar (u / 4096 % 16)) (Nat.digitChar (u / 256 % 16)) (Nat.digitChar (u / 16 % 16))
      (Nat.digitChar (u % 16)) = some u := by
    simp only [hex, digit, bind, Option.bind, pure, joined]
  rw [← read]
  exact units.eq_def _

theorem before_eq (u : Nat) (rest : Option (List Nat × List Char)) :
    before (some u) rest = rest.map fun p => (u :: p.1, p.2) := by
  cases rest <;> rfl

theorem units_codeUnits {us : List Nat} (short : ∀ u ∈ us, u < 0x10000) (t : List Char) :
    units (us.flatMap unicode ++ t) = (units t).map fun p => (us ++ p.1, p.2) := by
  induction us with
  | nil =>
    rw [List.flatMap_nil, List.nil_append]
    cases units t <;> rfl
  | cons u us ih =>
    obtain ⟨first, rest⟩ := List.forall_mem_cons.mp short
    rw [List.flatMap_cons, List.append_assoc, units_unicode first, ih rest, before_eq]
    cases units t <;> rfl

theorem codeUnits_short {u : Nat} (point : u < 0x110000) : ∀ w ∈ codeUnits u, w < 0x10000 := by
  intro w member
  unfold codeUnits at member
  split at member
  · obtain rfl := List.mem_singleton.mp member
    assumption
  · simp only [List.mem_cons, List.not_mem_nil, or_false] at member
    omega

theorem escape_letter {u : Nat} {e : Char} (lettered : letter u = some e) :
    e ≠ 'u' ∧ escape e = some u ∧ codeUnits u = [u] := by
  have small : u < 0x5D := by
    unfold letter at lettered
    split_ifs at lettered <;> omega
  have all : ∀ u < 0x5D, ∀ e, letter u = some e → e ≠ 'u' ∧ escape e = some u := by
    intro u below e is
    have table : ∀ u < 0x5D, (letter u).all fun e => decide (e ≠ 'u' ∧ escape e = some u) := by decide
    simpa [is] using table u below
  obtain ⟨other, read⟩ := all u small e lettered
  exact ⟨other, read, if_pos (by omega)⟩

theorem printed_plain {u : Nat} (printed : 0x20 ≤ u ∧ u < 0x7F) (none : letter u = none) :
    (Char.ofNat u).toNat = u ∧ Char.ofNat u ≠ '\x22' ∧ Char.ofNat u ≠ '\\' := by
  have all : ∀ u < 0x7F, letter u = Option.none →
      (Char.ofNat u).toNat = u ∧ Char.ofNat u ≠ '\x22' ∧ Char.ofNat u ≠ '\\' := by decide
  exact all u printed.2 none

theorem units_escaped {u : Nat} (point : u < 0x110000) (t : List Char) :
    units (escaped u ++ t) = (units t).map fun p => (codeUnits u ++ p.1, p.2) := by
  unfold escaped
  split
  · rename_i e lettered
    obtain ⟨other, read, same⟩ := escape_letter lettered
    rw [List.cons_append, List.cons_append, List.nil_append, units_escape other, read, before_eq, same]
    rfl
  · rename_i none
    by_cases printed : 0x20 ≤ u ∧ u < 0x7F
    · obtain ⟨same, quote, backslash⟩ := printed_plain printed none
      have single : codeUnits u = [u] := if_pos (by omega)
      rw [if_pos printed, List.singleton_append, units_plain quote backslash (by omega), same, before_eq, single]
      rfl
    · rw [if_neg printed]
      exact units_codeUnits (codeUnits_short point) t

theorem units_text {s : List Nat} (points : ∀ u ∈ s, u < 0x110000) (t : List Char) :
    units (s.flatMap escaped ++ '\x22' :: t) = some (s.flatMap codeUnits, t) := by
  induction s with
  | nil => exact units_quote t
  | cons u s ih =>
    obtain ⟨first, rest⟩ := List.forall_mem_cons.mp points
    rw [List.flatMap_cons, List.append_assoc, units_escaped first, ih rest]
    rfl

theorem combine_cons {u : Nat} {us : List Nat} (alone : ∀ w ∈ us.head?, ¬ Halves u w) :
    combine (u :: us) = u :: combine us := by
  cases us with
  | nil => simp [combine]
  | cons w us => exact if_neg (alone w rfl)

theorem combine_halves {hi lo : Nat} (halves : Halves hi lo) (us : List Nat) :
    combine (hi :: lo :: us) = (0x10000 + (hi - 0xD800) * 0x400 + (lo - 0xDC00)) :: combine us := if_pos halves

theorem combine_codeUnits {s : List Nat} (text : Text s) : combine (s.flatMap codeUnits) = s := by
  obtain ⟨points, alone⟩ := text
  induction s with
  | nil => simp [combine]
  | cons u s ih =>
    obtain ⟨first, rest⟩ := List.forall_mem_cons.mp points
    have behind := ih rest alone.of_cons
    rw [List.flatMap_cons]
    by_cases short : u < 0x10000
    · rw [codeUnits, if_pos short, List.singleton_append, combine_cons, behind]
      intro w next
      cases s with
      | nil => cases next
      | cons v s =>
        have apart : ¬ Halves u v := (List.isChain_cons_cons.mp alone).1
        rw [List.flatMap_cons, codeUnits] at next
        split_ifs at next with short'
        · cases next
          exact apart
        · cases next
          have point := (List.forall_mem_cons.mp rest).1
          exact fun halves => absurd halves.2.2.1 (by omega)
    · have halves : Halves (0xD800 + (u - 0x10000) / 0x400) (0xDC00 + (u - 0x10000) % 0x400) := by
        unfold Halves
        omega
      have joined : 0x10000 + (0xD800 + (u - 0x10000) / 0x400 - 0xD800) * 0x400 +
          (0xDC00 + (u - 0x10000) % 0x400 - 0xDC00) = u := by omega
      rw [codeUnits, if_neg short, List.cons_append, List.singleton_append, combine_halves halves, behind, joined]

theorem string_text {s : List Nat} (text : Text s) (t : List Char) :
    string (s.flatMap escaped ++ '\x22' :: t) = some (s, t) := by
  simp only [string, units_text text.points, bind, Option.bind, combine_codeUnits text, pure]

/-! Values, each in lines of its own. -/

def newline (level : Nat) : List Char := '\n' :: List.replicate (2 * level) ' '

def further (closing : Char) (level : Nat) (r : List Char) : List (List Char) → List Char
  | [] => newline level ++ closing :: r
  | t :: ts => ',' :: (newline (level + 1) ++ (t ++ further closing level r ts))

def bracketed (opening closing : Char) (level : Nat) : List (List Char) → List Char
  | [] => [opening, closing]
  | t :: ts => opening :: (newline (level + 1) ++ (t ++ further closing level [] ts))

mutual

/-- A value at a level of indentation. No float is written. -/
def written : Value → Nat → List Char
  | .null, _ => "null".toList
  | .bool b, _ => if b then "true".toList else "false".toList
  | .int n, _ => (toString n).toList
  | .float, _ => []
  | .string s, _ => quoted s
  | .array vs, level => bracketed '[' ']' level (elements vs (level + 1))
  | .object fields, level => bracketed '\x7b' '\x7d' level (members fields (level + 1))

def elements : List Value → Nat → List (List Char)
  | [], _ => []
  | v :: vs, level => written v level :: elements vs level

def members : List (List Nat × Value) → Nat → List (List Char)
  | [], _ => []
  | (key, v) :: fields, level => (quoted key ++ ':' :: ' ' :: written v level) :: members fields level

end

/-- `json.dumps(v, indent=2)` -/
def dumps (v : Value) : List Char := written v 0

inductive Plain : Value → Prop
  | null : Plain .null
  | bool (b : Bool) : Plain (.bool b)
  | int (n : Int) : Plain (.int n)
  | string {s : List Nat} (text : Text s) : Plain (.string s)
  | array {vs : List Value} (all : ∀ v ∈ vs, Plain v) : Plain (.array vs)
  | object {fields : List (List Nat × Value)} (names : ∀ f ∈ fields, Text f.1) (all : ∀ f ∈ fields, Plain f.2) :
      Plain (.object fields)

theorem elements_eq (vs : List Value) (level : Nat) : elements vs level = vs.map (written · level) := by
  induction vs with
  | nil => rfl
  | cons v vs ih => rw [elements, ih, List.map_cons]

theorem members_eq (fields : List (List Nat × Value)) (level : Nat) :
    members fields level = fields.map fun f => quoted f.1 ++ ':' :: ' ' :: written f.2 level := by
  induction fields with
  | nil => rfl
  | cons f fields ih => rw [members, ih, List.map_cons]

theorem skip_newline (level : Nat) (t : List Char) : skip (newline level ++ t) = skip t := by
  have blank : ∀ c ∈ newline level, space c = true := by
    intro c member
    rcases List.mem_cons.mp member with rfl | rest
    · rfl
    · exact List.eq_of_mem_replicate rest ▸ rfl
  exact List.dropWhile_append_of_pos blank

theorem delimited_newline (level : Nat) (t : List Char) : Delimited (newline level ++ t) :=
  ⟨by decide, by decide, by decide, by decide⟩

section
variable {A : Type} {item : Scanner A}

/-- The scanner takes the text, which begins neither with white space nor with the closing bracket. -/
structure Reads (item : Scanner A) (closing : Char) (t : List Char) (a : A) : Prop where
  starts : ∃ c t', t = c :: t' ∧ space c = false ∧ c ≠ closing
  taken : ∀ r, Delimited r → item (t ++ r) = some (a, r)

theorem Reads.glued {closing : Char} {t : List Char} {a : A} (reads : Reads item closing t a) (r : List Char) :
    skip (t ++ r) = t ++ r := by
  obtain ⟨c, t', rfl, solid, -⟩ := reads.starts
  rw [skip, List.cons_append, List.dropWhile_cons, solid]
  rfl

theorem further_append (closing : Char) (level : Nat) (r q : List Char) (ts : List (List Char)) :
    further closing level r ts ++ q = further closing level (r ++ q) ts := by
  induction ts with
  | nil => simp [further]
  | cons t ts ih => simp [further, ih]

theorem delimited_further (closing : Char) (level : Nat) (r : List Char) (ts : List (List Char)) :
    Delimited (further closing level r ts) := by
  cases ts with
  | nil => exact delimited_newline level (closing :: r)
  | cons t ts => exact delimited_comma _

theorem items_read {closing : Char} (bracket : space closing = false) (other : closing ≠ ',') (level : Nat)
    (r : List Char) {ts : List (List Char)} {as : List A} (all : List.Forall₂ (Reads item closing) ts as)
    {t : List Char} {a : A} (first : Reads item closing t a) {n : Nat} (enough : ts.length ≤ n) :
    items item closing (n + 1) (t ++ further closing level r ts) = some (a :: as, r) := by
  have taken := first.taken _ (delimited_further closing level r ts)
  induction all generalizing t a n with
  | nil =>
    have here : skip (further closing level r []) = closing :: r := by
      rw [further, skip_newline, skip, List.dropWhile_cons, bracket]
      rfl
    simp only [items, taken, bind, Option.bind, here, if_true, pure]
  | @cons u b us bs next others ih =>
    obtain ⟨n, rfl⟩ : ∃ m, n = m + 1 := ⟨n - 1, by simp only [List.length_cons] at enough; omega⟩
    have rest := ih next (Nat.le_of_succ_le_succ enough) (next.taken _ (delimited_further closing level r us))
    have comma : skip (further closing level r (u :: us)) =
        ',' :: (newline (level + 1) ++ (u ++ further closing level r us)) := rfl
    have glued : skip (newline (level + 1) ++ (u ++ further closing level r us)) =
        u ++ further closing level r us := by rw [skip_newline, next.glued]
    simp only [items, taken, bind, Option.bind, comma, if_neg other.symm, if_true, glued] at rest ⊢
    rw [rest]
    rfl

theorem enclosed_read {closing : Char} (opening : Char) (bracket : space closing = false) (other : closing ≠ ',')
    (level : Nat) (r : List Char) {ts : List (List Char)} {as : List A}
    (all : List.Forall₂ (Reads item closing) ts as) {n : Nat} (enough : ts.length ≤ n) :
    ∃ t, bracketed opening closing level ts ++ r = opening :: t ∧ enclosed item closing n t = some (as, r) := by
  cases all with
  | nil =>
    have here : skip (closing :: r) = closing :: r := by
      rw [skip, List.dropWhile_cons, bracket]
      rfl
    exact ⟨closing :: r, rfl, by simp only [enclosed, here, if_true]⟩
  | @cons u b us bs next others =>
    obtain ⟨n, rfl⟩ : ∃ m, n = m + 1 := ⟨n - 1, by simp only [List.length_cons] at enough; omega⟩
    have read := items_read bracket other level r others next (Nat.le_of_succ_le_succ enough)
    refine ⟨newline (level + 1) ++ (u ++ further closing level r us), ?_, ?_⟩
    · simp [bracketed, further_append]
    · have glued : skip (newline (level + 1) ++ (u ++ further closing level r us)) =
          u ++ further closing level r us := by rw [skip_newline, next.glued]
      obtain ⟨c, u', rfl, -, ends⟩ := next.starts
      rw [List.cons_append] at glued read
      simp only [List.cons_append, enclosed, glued, if_neg ends]
      exact read

end

theorem length_further (closing : Char) (level : Nat) (r : List Char) (ts : List (List Char)) :
    ts.length < (further closing level r ts).length ∧
    ∀ t ∈ ts, t.length < (further closing level r ts).length := by
  induction ts with
  | nil =>
    have longer : 0 < (further closing level r []).length := by
      rw [further, List.length_append, List.length_cons]
      omega
    exact ⟨longer, List.forall_mem_nil _⟩
  | cons u ts ih =>
    obtain ⟨count, each⟩ := ih
    have longer : (further closing level r (u :: ts)).length =
        (newline (level + 1)).length + u.length + (further closing level r ts).length + 1 := by
      simp only [further, List.length_cons, List.length_append]
      omega
    rw [longer]
    refine ⟨by rw [List.length_cons]; omega, List.forall_mem_cons.mpr ⟨by omega, fun t member => ?_⟩⟩
    exact Nat.lt_of_lt_of_le (each t member) (by omega)

theorem length_bracketed (opening closing : Char) (level : Nat) (ts : List (List Char)) :
    ts.length < (bracketed opening closing level ts).length ∧
      ∀ t ∈ ts, t.length < (bracketed opening closing level ts).length := by
  cases ts with
  | nil => exact ⟨Nat.zero_lt_succ 1, List.forall_mem_nil _⟩
  | cons u ts =>
    obtain ⟨count, each⟩ := length_further closing level [] ts
    have longer : (bracketed opening closing level (u :: ts)).length =
        (newline (level + 1)).length + u.length + (further closing level [] ts).length + 1 := by
      simp only [bracketed, List.length_cons, List.length_append]
      omega
    rw [longer]
    refine ⟨by rw [List.length_cons]; omega, List.forall_mem_cons.mpr ⟨by omega, fun t member => ?_⟩⟩
    exact Nat.lt_of_lt_of_le (each t member) (by omega)

theorem bracketed_starts (opening closing : Char) (level : Nat) (ts : List (List Char)) :
    ∃ t, bracketed opening closing level ts = opening :: t := by
  cases ts with
  | nil => exact ⟨[closing], rfl⟩
  | cons t ts => exact ⟨_, rfl⟩

def Starts (t : List Char) : Prop := ∃ c t', t = c :: t' ∧ space c = false ∧ c ≠ '\x7d' ∧ c ≠ ']'

theorem starts_digit {c : Char} (digit : c.isDigit) (t : List Char) : Starts (c :: t) := by
  refine ⟨c, t, rfl, ?_, ne_of_digit digit rfl, ne_of_digit digit rfl⟩
  simp [space, ne_of_digit (d := ' ') digit rfl, ne_of_digit (d := '\t') digit rfl,
    ne_of_digit (d := '\n') digit rfl, ne_of_digit (d := '\r') digit rfl]

theorem written_starts {v : Value} (plain : Plain v) (level : Nat) : Starts (written v level) := by
  have solid {c : Char} (t : List Char) (table : space c = false ∧ c ≠ '\x7d' ∧ c ≠ ']') : Starts (c :: t) :=
    ⟨c, t, rfl, table⟩
  cases plain with
  | null => exact solid _ (by decide)
  | bool b => cases b <;> exact solid _ (by decide)
  | int n =>
    rw [written, toList_int]
    split
    · cases digits : Nat.toDigits 10 n.toNat with
      | nil => exact absurd digits Nat.toDigits_ne_nil
      | cons c t => exact starts_digit (digit_of_toDigits (digits ▸ List.mem_cons_self)) t
    · exact solid _ (by decide)
  | string text => exact solid _ (by decide)
  | array all =>
    obtain ⟨t, is⟩ := bracketed_starts '[' ']' level (elements _ (level + 1))
    rw [written, is]
    exact solid t (by decide)
  | object names all =>
    obtain ⟨t, is⟩ := bracketed_starts '\x7b' '\x7d' level (members _ (level + 1))
    rw [written, is]
    exact solid t (by decide)

theorem written_fuel {v : Value} (plain : Plain v) (level : Nat) {n : Nat}
    (enough : (written v level).length ≤ n) : ∃ m, n = m + 1 := by
  obtain ⟨c, t, is, -⟩ := written_starts plain level
  rw [is, List.length_cons] at enough
  exact ⟨n - 1, by omega⟩

theorem value_quoted {n : Nat} {s : List Nat} (text : Text s) (r : List Char) :
    value (n + 1) (quoted s ++ r) = some (.string s, r) := by
  have read := string_text text r
  simp only [quoted, List.cons_append, List.append_assoc, List.nil_append, value, if_true, read, Option.map_some]

theorem member_read {scan : Scanner Value} {key : List Nat} (text : Text key) {t r : List Char} {v : Value}
    (starts : Starts t) (valued : scan (t ++ r) = some (v, r)) :
    member scan (quoted key ++ ':' :: ' ' :: t ++ r) = some ((key, v), r) := by
  obtain ⟨c, t', rfl, solid, -⟩ := starts
  have read := string_text text (':' :: ' ' :: (c :: t' ++ r))
  have colon : skip (':' :: ' ' :: (c :: t' ++ r)) = ':' :: ' ' :: (c :: t' ++ r) := rfl
  have glued : skip (' ' :: (c :: t' ++ r)) = c :: t' ++ r := by
    simp only [skip, List.cons_append, List.dropWhile_cons, show space ' ' = true from rfl, if_true, solid]
    rfl
  simp only [quoted, List.cons_append, List.append_assoc, List.nil_append] at read colon glued valued ⊢
  simp only [member, if_true, read, bind, Option.bind, colon, glued, valued, pure]

theorem reads_of {A : Type} {item : Scanner A} {closing : Char} (bracket : closing = '\x7d' ∨ closing = ']')
    {t : List Char} {a : A} (starts : Starts t) (taken : ∀ r, Delimited r → item (t ++ r) = some (a, r)) :
    Reads item closing t a := by
  obtain ⟨c, t', is, solid, brace, square⟩ := starts
  exact ⟨⟨c, t', is, solid, by rcases bracket with rfl | rfl <;> assumption⟩, taken⟩

/-- What is written for a value is read as it, given fuel for its length. -/
theorem value_written {v : Value} (plain : Plain v) (level : Nat) {n : Nat}
    (enough : (written v level).length ≤ n) {r : List Char} (ends : Delimited r) :
    value n (written v level ++ r) = some (v, r) := by
  induction plain generalizing level n r with
  | null =>
    obtain ⟨n, rfl⟩ := written_fuel .null level enough
    exact value_literal rfl rfl
  | bool b =>
    obtain ⟨n, rfl⟩ := written_fuel (.bool b) level enough
    cases b <;> exact value_literal rfl rfl
  | int i =>
    obtain ⟨n, rfl⟩ := written_fuel (.int i) level enough
    exact value_int i ends
  | string text =>
    obtain ⟨n, rfl⟩ := written_fuel (.string text) level enough
    exact value_quoted text r
  | @array vs all ih =>
    obtain ⟨n, rfl⟩ := written_fuel (.array all) level enough
    rw [written] at enough ⊢
    obtain ⟨count, each⟩ := length_bracketed '[' ']' level (elements vs (level + 1))
    have reads : List.Forall₂ (Reads (value n) ']') (elements vs (level + 1)) vs := by
      rw [elements_eq, List.forall₂_map_left_iff, List.forall₂_same]
      intro v member
      have within :=
        each _ (elements_eq vs (level + 1) ▸ List.mem_map_of_mem (f := (written · (level + 1))) member)
      exact reads_of (.inr rfl) (written_starts (all v member) (level + 1)) fun r ends =>
        ih v member (level + 1) (by omega) ends
    obtain ⟨t, is, read⟩ := enclosed_read '[' (by decide) (by decide) level r reads (n := n) (by omega)
    have other : ¬ '[' = '\x22' ∧ ¬ '[' = '\x7b' := by decide
    simp only [is, value, if_neg other.1, if_neg other.2, if_true, read, Option.map_some]
  | @object fields names all ih =>
    obtain ⟨n, rfl⟩ := written_fuel (.object names all) level enough
    rw [written] at enough ⊢
    obtain ⟨count, each⟩ := length_bracketed '\x7b' '\x7d' level (members fields (level + 1))
    have reads : List.Forall₂ (Reads (member (value n)) '\x7d') (members fields (level + 1)) fields := by
      rw [members_eq, List.forall₂_map_left_iff, List.forall₂_same]
      intro f member
      have within := each _ (members_eq fields (level + 1) ▸ List.mem_map_of_mem
        (f := fun f : List Nat × Value => quoted f.1 ++ ':' :: ' ' :: written f.2 (level + 1)) member)
      rw [List.length_append, List.length_cons, List.length_cons] at within
      exact reads_of (.inl rfl) ⟨'\x22', _, rfl, by decide⟩ fun r ends =>
        member_read (names f member) (written_starts (all f member) (level + 1))
          (ih f member (level + 1) (by omega) ends)
    obtain ⟨t, is, read⟩ := enclosed_read '\x7b' (by decide) (by decide) level r reads (n := n) (by omega)
    have other : ¬ '\x7b' = '\x22' := by decide
    simp only [is, value, if_neg other, if_true, read, Option.map_some]

theorem loads_dumps {v : Value} (plain : Plain v) {r : List Char} (blank : r.all space) (some_blank : r ≠ []) :
    loads (dumps v ++ r) = some v := by
  obtain ⟨c, t, is, solid, -⟩ := written_starts plain 0
  have glued : skip (dumps v ++ r) = dumps v ++ r := by
    rw [dumps, is, skip, List.cons_append, List.dropWhile_cons, solid]
    rfl
  have ends : Delimited r := by
    cases r with
    | nil => exact absurd rfl some_blank
    | cons d r =>
      have first := (List.all_cons ▸ blank : (space d && r.all space) = true)
      simp only [space, Bool.and_eq_true, Bool.or_eq_true, decide_eq_true_eq] at first
      rcases first.1 with ((rfl | rfl) | rfl) | rfl <;> exact ⟨by decide, by decide, by decide, by decide⟩
  have nothing : skip r = [] := List.dropWhile_eq_nil_iff.mpr (List.all_eq_true.mp blank)
  have enough : (written v 0).length ≤ (dumps v ++ r).length + 1 := by
    rw [dumps, List.length_append]
    omega
  have read : value ((dumps v ++ r).length + 1) (dumps v ++ r) = some (v, r) := value_written plain 0 enough ends
  rw [loads, glued]
  simp only [read, nothing, if_true]

/-! Only printed ASCII and line feeds are written. -/

def Sheet (c : Char) : Prop := c = '\n' ∨ 0x20 ≤ c.toNat ∧ c.toNat < 0x7F

theorem sheet_digit {c : Char} (digit : c.isDigit) : Sheet c := by
  simp only [Char.isDigit, Bool.and_eq_true, decide_eq_true_eq, UInt32.le_iff_toNat_le] at digit
  have low : (48 : UInt32).toNat ≤ c.toNat := digit.1
  have high : c.toNat ≤ (57 : UInt32).toNat := digit.2
  exact .inr ⟨Nat.le_trans (by decide) low, Nat.lt_of_le_of_lt high (by decide)⟩

theorem sheet_unicode (u : Nat) : ∀ c ∈ unicode u, Sheet c := by
  have hexadecimal (n : Nat) : Sheet (Nat.digitChar (n % 16)) := by
    have all : ∀ d < 16, 0x20 ≤ (Nat.digitChar d).toNat ∧ (Nat.digitChar d).toNat < 0x7F := by decide
    exact .inr (all (n % 16) (Nat.mod_lt n (by decide)))
  have front : Sheet '\\' ∧ Sheet 'u' := ⟨.inr (by decide), .inr (by decide)⟩
  simp only [unicode, List.forall_mem_cons]
  exact ⟨front.1, front.2, hexadecimal _, hexadecimal _, hexadecimal _, hexadecimal _, List.forall_mem_nil _⟩

theorem sheet_escaped (u : Nat) : ∀ c ∈ escaped u, Sheet c := by
  intro c member
  unfold escaped at member
  split at member
  · rename_i e lettered
    have small : u < 0x5D := by
      unfold letter at lettered
      split_ifs at lettered <;> omega
    have table : ∀ u < 0x5D, (letter u).all fun e => decide (0x20 ≤ e.toNat ∧ e.toNat < 0x7F) := by decide
    have printed : 0x20 ≤ e.toNat ∧ e.toNat < 0x7F := by simpa [lettered] using table u small
    simp only [List.mem_cons, List.not_mem_nil, or_false] at member
    rcases member with rfl | rfl
    · exact .inr (by decide)
    · exact .inr printed
  · rename_i none
    split at member
    · rename_i printed
      obtain rfl := List.mem_singleton.mp member
      obtain ⟨same, -⟩ := printed_plain printed none
      exact .inr (by omega)
    · obtain ⟨w, -, inside⟩ := List.mem_flatMap.mp member
      exact sheet_unicode w c inside

theorem sheet_quoted (s : List Nat) : ∀ c ∈ quoted s, Sheet c := by
  intro c member
  have quote : Sheet '\x22' := .inr (by decide)
  simp only [quoted, List.cons_append, List.mem_cons, List.mem_append, List.not_mem_nil, or_false] at member
  rcases member with rfl | inside | rfl
  · exact quote
  · obtain ⟨u, -, within⟩ := List.mem_flatMap.mp inside
    exact sheet_escaped u c within
  · exact quote

theorem sheet_newline (level : Nat) : ∀ c ∈ newline level, Sheet c := by
  intro c member
  rcases List.mem_cons.mp member with rfl | rest
  · exact .inl rfl
  · exact List.eq_of_mem_replicate rest ▸ .inr (by decide)

theorem sheet_further {closing : Char} (bracket : Sheet closing) (level : Nat) {ts : List (List Char)}
    (all : ∀ t ∈ ts, ∀ c ∈ t, Sheet c) : ∀ c ∈ further closing level [] ts, Sheet c := by
  have comma : Sheet ',' := .inr (by decide)
  induction ts with
  | nil =>
    exact List.forall_mem_append.mpr ⟨sheet_newline level,
      List.forall_mem_cons.mpr ⟨bracket, List.forall_mem_nil _⟩⟩
  | cons t ts ih =>
    obtain ⟨first, rest⟩ := List.forall_mem_cons.mp all
    exact List.forall_mem_cons.mpr ⟨comma, List.forall_mem_append.mpr ⟨sheet_newline (level + 1),
      List.forall_mem_append.mpr ⟨first, ih rest⟩⟩⟩

theorem sheet_bracketed {opening closing : Char} (bracket : Sheet opening) (bracket' : Sheet closing) (level : Nat)
    {ts : List (List Char)} (all : ∀ t ∈ ts, ∀ c ∈ t, Sheet c) :
    ∀ c ∈ bracketed opening closing level ts, Sheet c := by
  cases ts with
  | nil => exact List.forall_mem_cons.mpr ⟨bracket, List.forall_mem_cons.mpr ⟨bracket', List.forall_mem_nil _⟩⟩
  | cons t ts =>
    obtain ⟨first, rest⟩ := List.forall_mem_cons.mp all
    exact List.forall_mem_cons.mpr ⟨bracket, List.forall_mem_append.mpr ⟨sheet_newline (level + 1),
      List.forall_mem_append.mpr ⟨first, sheet_further bracket' level rest⟩⟩⟩

theorem sheet_written {v : Value} (plain : Plain v) (level : Nat) : ∀ c ∈ written v level, Sheet c := by
  have letters (word : String) (all : ∀ c ∈ word.toList, 0x20 ≤ c.toNat ∧ c.toNat < 0x7F) :
      ∀ c ∈ word.toList, Sheet c := fun c member => .inr (all c member)
  induction plain generalizing level with
  | null => exact letters "null" (List.forall_iff_forall_mem.mp (by decide))
  | bool b =>
    cases b with
    | false => exact letters "false" (List.forall_iff_forall_mem.mp (by decide))
    | true => exact letters "true" (List.forall_iff_forall_mem.mp (by decide))
  | int n =>
    intro c member
    rcases chars_int member with rfl | digit
    · exact .inr (by decide)
    · exact sheet_digit digit
  | @string s text => exact sheet_quoted s
  | @array vs all ih =>
    rw [written, elements_eq]
    apply sheet_bracketed (.inr (by decide)) (.inr (by decide)) level
    intro t member
    obtain ⟨v, inside, rfl⟩ := List.mem_map.mp member
    exact ih v inside (level + 1)
  | @object fields names all ih =>
    rw [written, members_eq]
    apply sheet_bracketed (.inr (by decide)) (.inr (by decide)) level
    intro t member
    obtain ⟨f, inside, rfl⟩ := List.mem_map.mp member
    have between : Sheet ':' ∧ Sheet ' ' := ⟨.inr (by decide), .inr (by decide)⟩
    exact List.forall_mem_append.mpr ⟨sheet_quoted f.1, List.forall_mem_cons.mpr ⟨between.1,
      List.forall_mem_cons.mpr ⟨between.2, ih f inside (level + 1)⟩⟩⟩

end Json

import RkmoonKvm.Hid.Queues
import RkmoonKvm.Library.Json
import RkmoonKvm.Library.StreamReader

/-! The lines between `HidClient` and the server, as text: what `encode` writes, and what
`readline`, `json.loads` and `parse_event` accept of it when the connection ends anywhere.
The lines are ASCII, so a character stands for its byte. -/
namespace Hid.LineProtocol
open StreamReader

def flag (down : Bool) : String := if down then "true" else "false"

def object (e : HidEvent) : String :=
  "\x7b\"op\":\"" ++
  (match e.type with
  | .key => "key\",\"vk\":" ++ toString e.a ++ ",\"down\":" ++ flag e.down
  | .button => "button\",\"button\":" ++ toString e.a ++ ",\"down\":" ++ flag e.down
  | .move => "move\",\"x\":" ++ toString e.a ++ ",\"y\":" ++ toString e.b
  | .wheel => "wheel\",\"x\":" ++ toString e.a ++ ",\"y\":" ++ toString e.b
  | .absolute => "absolute\",\"x\":" ++ toString e.a ++ ",\"y\":" ++ toString e.b) ++
  "\x7d"

def encode (e : HidEvent) : List Char := (object e).toList ++ ['\n']

/-! The server's side. -/

/-- Half a surrogate pair is no character; no field is named or compared with one. -/
def name (s : List Nat) : String := String.ofList (s.map Char.ofNat)

def scalar : Json.Value → Value
  | .null => .null
  | .bool b => .bool b
  | .int n => .int n
  | .string s => .str (name s)
  | _ => .other

/-- A key that comes again takes the new value. -/
def setItem (d : List (String × Value)) (key : String) (v : Value) : List (String × Value) :=
  if d.any (fun p => p.1 = key) then d.map fun p => if p.1 = key then (key, v) else p
  else d ++ [(key, v)]

def decoded : Json.Value → Line
  | .object fields => .object (fields.foldl (fun d p => setItem d (name p.1) (scalar p.2)) [])
  | _ => .other

/-- How `read_events` is over: it returns, or raises and revokes the lease. -/
inductive Ending where
  | returned
  | raised
  deriving DecidableEq

def accept (line : List Char) : Option Event :=
  (Json.loads line).bind fun v => (parseEvent (decoded v)).toOption

def readline (s : Source Char) : Option (List Char × Source Char) :=
  s.readLine (fun c => c = '\n') 1024

/-- The events that `read_events` gives to the queue. A round reads a line, so the number of
lines is fuel enough. -/
def readEvents : Nat → Source Char → List Event × Ending
  | 0, _ => ([], .raised)
  | fuel + 1, s =>
    match readline s with
    | none => ([], .raised)
    | some (line, s) =>
      if line = [] then ([], .returned)
      else if 512 < line.length then ([], .raised)
      else match accept line with
        | none => ([], .raised)
        | some .bye => ([], .returned)
        | some .ping => readEvents fuel s
        | some e => (e :: (readEvents fuel s).1, (readEvents fuel s).2)

/-! What the server reads of a whole line. -/

def codes (s : String) : List Nat := s.toList.map Char.toNat

def fields (e : HidEvent) : List (List Nat × Json.Value) :=
  match e.type with
  | .key =>
    [(codes "op", .string (codes "key")), (codes "vk", .int e.a), (codes "down", .bool e.down)]
  | .button =>
    [(codes "op", .string (codes "button")), (codes "button", .int e.a),
      (codes "down", .bool e.down)]
  | .move => [(codes "op", .string (codes "move")), (codes "x", .int e.a), (codes "y", .int e.b)]
  | .wheel => [(codes "op", .string (codes "wheel")), (codes "x", .int e.a), (codes "y", .int e.b)]
  | .absolute =>
    [(codes "op", .string (codes "absolute")), (codes "x", .int e.a), (codes "y", .int e.b)]

def triple (op name : String) (i : Int) (last : String) (text : List Char) : List Char :=
  '\x22' :: ("op".toList ++ '\x22' :: ':' :: '\x22' :: (op.toList ++ '\x22' :: ',' ::
    '\x22' :: (name.toList ++ '\x22' :: ':' :: ((toString i).toList ++ ',' ::
      '\x22' :: (last.toList ++ '\x22' :: ':' :: text)))))

theorem value_triple {op name last : String} (i : Int) {text : List Char} {v : Json.Value}
    (chars : op.toList.all Json.plain ∧ name.toList.all Json.plain ∧ last.toList.all Json.plain)
    (glued : Json.skip text = text) (valued : Json.value 3 text = some (v, ['\x7d'])) :
    Json.value 4 ('\x7b' :: triple op name i last text) = some (.object
      [(codes "op", .string (codes op)), (codes name, .int i), (codes last, v)], []) := by
  obtain ⟨opChars, nameChars, lastChars⟩ := chars
  have third := Json.items_last (n := 0) rfl
    (Json.member_chars lastChars glued valued)
  have number := Json.member_chars nameChars (Json.skip_int i _)
    (Json.value_int (m := 2) i
      (Json.delimited_comma ('\x22' :: (last.toList ++ '\x22' :: ':' :: text))))
  have second := Json.items_comma (by decide) rfl number third
  have named := @Json.member_chars _ "op".toList _ _ _ rfl rfl
    (Json.value_chars (m := 2) opChars (',' :: '\x22' :: (name.toList ++ '\x22' :: ':' ::
      ((toString i).toList ++ ',' :: '\x22' :: (last.toList ++ '\x22' :: ':' :: text)))))
  exact Json.value_object (Json.items_comma (by decide) rfl named second)

theorem object_triple (e : HidEvent) : (object e).toList = '\x7b' ::
    match e.type with
    | .key => triple "key" "vk" e.a "down" ((flag e.down).toList ++ ['\x7d'])
    | .button => triple "button" "button" e.a "down" ((flag e.down).toList ++ ['\x7d'])
    | .move => triple "move" "x" e.a "y" ((toString e.b).toList ++ ['\x7d'])
    | .wheel => triple "wheel" "x" e.a "y" ((toString e.b).toList ++ ['\x7d'])
    | .absolute => triple "absolute" "x" e.a "y" ((toString e.b).toList ++ ['\x7d']) := by
  obtain ⟨type, a, b, down⟩ := e
  cases type <;> simp [object, triple]

theorem value_object (e : HidEvent) :
    Json.value 4 (object e).toList = some (.object (fields e), []) := by
  have number (i : Int) : Json.value 3 ((toString i).toList ++ ['\x7d']) = some (.int i, ['\x7d']) :=
    Json.value_int i (Json.delimited_brace [])
  have bool (down : Bool) :
      Json.value 3 ((flag down).toList ++ ['\x7d']) = some (.bool down, ['\x7d']) := by
    cases down with
    | true => exact @Json.value_literal _ _ _ _ "true" _ rfl rfl
    | false => exact @Json.value_literal _ _ _ _ "false" _ rfl rfl
  have flagged (down : Bool) :
      Json.skip ((flag down).toList ++ ['\x7d']) = (flag down).toList ++ ['\x7d'] := by
    cases down <;> rfl
  rw [object_triple]
  obtain ⟨type, a, b, down⟩ := e
  cases type with
  | key => exact value_triple a ⟨rfl, rfl, rfl⟩ (flagged down) (bool down)
  | button => exact value_triple a ⟨rfl, rfl, rfl⟩ (flagged down) (bool down)
  | move => exact value_triple a ⟨rfl, rfl, rfl⟩ (Json.skip_int b _) (number b)
  | wheel => exact value_triple a ⟨rfl, rfl, rfl⟩ (Json.skip_int b _) (number b)
  | absolute => exact value_triple a ⟨rfl, rfl, rfl⟩ (Json.skip_int b _) (number b)

theorem decoded_fields (e : HidEvent) : decoded (.object (fields e)) = Hid.encode e := by
  obtain ⟨type, a, b, down⟩ := e
  cases type <;> rfl

def Known (e : HidEvent) : Prop := e.type = .key → (keys e.a.toNat).isSome

theorem integer_within {fields : List (String × Value)} {name : String} {low high n : Int}
    (is : field fields name = .int n) (within : low ≤ n ∧ n ≤ high) :
    integer fields name low high = .ok n := by
  simp only [integer, is, if_pos within]

theorem buttons_some {n : Int} (within : 1 ≤ n ∧ n ≤ 5) : (buttons n.toNat).isSome := by
  have listed : n = 1 ∨ n = 2 ∨ n = 3 ∨ n = 4 ∨ n = 5 := by omega
  rcases listed with rfl | rfl | rfl | rfl | rfl <;> rfl

theorem accept_flagged {fields : List (String × Value)} {name text : String} {low high n : Int}
    (unknown : Int → Bool) (make : Int → Event) (is : field fields name = .int n)
    (within : low ≤ n ∧ n ≤ high) (listed : unknown n = false) :
    (do
      let v ← integer fields name low high
      if unknown v then throw (PyError.inputError text)
      return make v) = .ok (make n) := by
  rw [integer_within is within]
  change (if unknown n then _ else _) = _
  rw [listed]
  rfl

theorem accept_pair {fields : List (String × Value)} {low high a b : Int} (make : Int → Int → Event)
    (isX : field fields "x" = .int a) (isY : field fields "y" = .int b)
    (x : low ≤ a ∧ a ≤ high) (y : low ≤ b ∧ b ≤ high) :
    (do
      let x ← integer fields "x" low high
      let y ← integer fields "y" low high
      return make x y) = (.ok (make a b) : Except PyError Event) := by
  rw [integer_within isX x, integer_within isY y]
  rfl

theorem parse_valid {e : HidEvent} (valid : e.valid) (known : Known e) :
    parseEvent (Hid.encode e) = .ok e.event := by
  obtain ⟨type, a, b, down⟩ := e
  cases type with
  | key =>
    have within : 0 ≤ a ∧ a ≤ 255 := by simpa [HidEvent.valid] using valid
    have listed : (keys a.toNat).isNone = false := by
      rw [← Option.not_isSome, known rfl]
      rfl
    exact accept_flagged (fun v => (keys v.toNat).isNone) (fun v => .key v.toNat down) rfl within listed
  | button =>
    have within : 1 ≤ a ∧ a ≤ 5 := by simpa [HidEvent.valid] using valid
    have listed : (buttons a.toNat).isNone = false := by
      rw [← Option.not_isSome, buttons_some within]
      rfl
    exact accept_flagged (fun v => (buttons v.toNat).isNone) (fun v => .button v.toNat down) rfl
      within listed
  | move =>
    simp only [HidEvent.valid, decide_eq_true_eq] at valid
    exact accept_pair .move rfl rfl ⟨valid.1, valid.2.1⟩ valid.2.2
  | wheel =>
    simp only [HidEvent.valid, decide_eq_true_eq] at valid
    exact accept_pair .wheel rfl rfl ⟨valid.1, valid.2.1⟩ valid.2.2
  | absolute =>
    simp only [HidEvent.valid, decide_eq_true_eq] at valid
    exact accept_pair .absolute rfl rfl ⟨valid.1, valid.2.1⟩ valid.2.2

theorem valid_of_submit {c : HidClient} {e : HidEvent} (submitted : (c.submit e).1) : e.valid := by
  unfold HidClient.submit at submitted
  split at submitted
  · cases submitted
  split at submitted
  · cases submitted
  split at submitted
  · cases submitted
  · rename_i valid
    simpa using valid

theorem object_brace (e : HidEvent) : ∃ t, (object e).toList = '\x7b' :: t ∧ 2 ≤ t.length := by
  refine ⟨_, object_triple e, ?_⟩
  cases e.type <;> simp [triple]

theorem accept_whole {e : HidEvent} (valid : e.valid) (known : Known e) {r : List Char}
    (blank : Json.skip r = []) : accept ((object e).toList ++ r) = some e.event := by
  obtain ⟨t, written, long⟩ := object_brace e
  have read := value_object e
  rw [written] at read ⊢
  rw [accept, Json.loads_object read (by omega) blank, Option.bind_some, decoded_fields,
    parse_valid valid known]
  rfl

theorem accept_cut {e : HidEvent} {t q : List Char} (cut : (object e).toList = t ++ q)
    (front : t ≠ []) (back : q ≠ []) : accept t = none := by
  obtain ⟨u, written, _⟩ := object_brace e
  have read := value_object e
  cases t with
  | nil => exact absurd rfl front
  | cons c t =>
    have brace : c = '\x7b' := (List.cons.inj (cut.symm.trans written)).1
    subst brace
    rw [cut] at read
    rw [accept, Json.loads_cut read back]
    rfl

theorem newline_int (i : Int) : '\n' ∉ (toString i).toList := by
  intro member
  rcases Json.chars_int member with sign | digit
  · cases sign
  · cases digit

theorem newline_flag (down : Bool) : '\n' ∉ (flag down).toList := by
  cases down <;> decide

theorem newline_object (e : HidEvent) : '\n' ∉ (object e).toList := by
  have a := newline_int e.a
  have b := newline_int e.b
  have down := newline_flag e.down
  rw [object]
  cases e.type <;> simp only [String.toList_append, List.mem_append, not_or] <;>
    refine ⟨⟨by decide, ?_⟩, by decide⟩
  · exact ⟨⟨⟨by decide, a⟩, by decide⟩, down⟩
  · exact ⟨⟨⟨by decide, a⟩, by decide⟩, down⟩
  · exact ⟨⟨⟨by decide, a⟩, by decide⟩, b⟩
  · exact ⟨⟨⟨by decide, a⟩, by decide⟩, b⟩
  · exact ⟨⟨⟨by decide, a⟩, by decide⟩, b⟩

theorem length_int {i : Int} (small : -32768 ≤ i ∧ i ≤ 32767) : (toString i).toList.length ≤ 6 :=
  Json.length_int (k := 5) (by decide) (by omega)

theorem length_flag (down : Bool) : (flag down).toList.length ≤ 5 := by
  cases down <;> decide

def numbers (e : HidEvent) : List Int :=
  match e.type with
  | .key | .button => [e.a]
  | .move | .wheel | .absolute => [e.a, e.b]

theorem numbers_small {e : HidEvent} (valid : e.valid) :
    ∀ i ∈ numbers e, -32768 ≤ i ∧ i ≤ 32767 := by
  obtain ⟨type, a, b, down⟩ := e
  cases type <;> simp [numbers, HidEvent.valid] at valid ⊢ <;> omega

theorem length_encode {e : HidEvent} (valid : e.valid) : (encode e).length ≤ 50 := by
  have digits : ∀ i ∈ numbers e, (toString i).toList.length ≤ 6 := fun i member =>
    length_int (numbers_small valid i member)
  have bool := length_flag e.down
  obtain ⟨type, a, b, down⟩ := e
  cases type <;> simp [numbers, encode, object] at digits bool ⊢ <;> omega

/-! The connection cut anywhere. -/

def braces : Nat → List HidEvent → List (HidEvent × Nat)
  | _, [] => []
  | start, e :: es =>
    (e, start + (object e).toList.length - 1) :: braces (start + (encode e).length) es

theorem length_line (e : HidEvent) : (encode e).length = (object e).toList.length + 1 := by
  rw [encode, List.length_append]
  rfl

theorem object_pos (e : HidEvent) : 0 < (object e).toList.length := by
  obtain ⟨t, written, _⟩ := object_brace e
  rw [written]
  exact Nat.succ_pos _

theorem braces_late {start cut : Nat} (late : cut ≤ start) (es : List HidEvent) :
    (braces start es).filter (fun p => p.2 < cut) = [] := by
  induction es generalizing start with
  | nil => rfl
  | cons e es ih =>
    have pos := object_pos e
    rw [braces, List.filter_cons_of_neg (by simp; omega)]
    exact ih (Nat.le_trans late (Nat.le_add_right _ _))

def Torn (cut : Nat) (es : List HidEvent) : Prop :=
  ∃ front e back, es = front ++ e :: back ∧ (front.flatMap encode).length < cut ∧
    cut < (front.flatMap encode).length + (object e).toList.length

theorem torn_here {e : HidEvent} {es : List HidEvent} {cut : Nat}
    (early : cut < (encode e).length) :
    Torn cut (e :: es) ↔ 0 < cut ∧ cut < (object e).toList.length := by
  constructor
  · rintro ⟨front, e', back, same, after, within⟩
    cases front with
    | nil =>
      cases same
      simpa using And.intro after within
    | cons f front =>
      cases same
      rw [List.flatMap_cons, List.length_append] at after
      omega
  · rintro ⟨after, within⟩
    exact ⟨[], e, es, rfl, after, by simpa using within⟩

theorem torn_behind {e : HidEvent} {es : List HidEvent} {cut : Nat}
    (late : (encode e).length ≤ cut) : Torn cut (e :: es) ↔ Torn (cut - (encode e).length) es := by
  have size := length_line e
  constructor
  · rintro ⟨front, e', back, same, after, within⟩
    cases front with
    | nil =>
      cases same
      simp only [List.flatMap_nil, List.length_nil] at within
      omega
    | cons f front =>
      cases same
      rw [List.flatMap_cons, List.length_append] at after within
      exact ⟨front, e', back, rfl, by omega, by omega⟩
  · rintro ⟨front, e', back, rfl, after, within⟩
    refine ⟨e :: front, e', back, rfl, ?_, ?_⟩ <;> rw [List.flatMap_cons, List.length_append] <;> omega

/-! A round of the server. -/

section
variable {fuel : Nat} {s : Source Char}

theorem readline_rest (unended : '\n' ∉ s.bytes) (short : s.bytes.length ≤ 1024) :
    ∃ s', readline s = some (s.bytes, s') ∧ s'.bytes = [] :=
  Source.readLine_end (fun _ member => decide_eq_false fun feed => unended (feed ▸ member)) short

theorem readline_line {front rest : List Char} (stream : s.bytes = front ++ '\n' :: rest)
    (unended : '\n' ∉ front) (short : front.length ≤ 1024) :
    ∃ s', readline s = some (front ++ ['\n'], s') ∧ s'.bytes = rest :=
  Source.readLine_append stream
    (fun _ member => decide_eq_false fun feed => unended (feed ▸ member)) (by decide) short

theorem readEvents_end (ended : s.bytes = []) : readEvents (fuel + 1) s = ([], .returned) := by
  obtain ⟨s', read, _⟩ := readline_rest (s := s) (by simp [ended]) (by simp [ended])
  rw [ended] at read
  simp only [readEvents, read, if_true]

theorem readEvents_part {e : HidEvent} (valid : e.valid) {q : List Char}
    (part : (object e).toList = s.bytes ++ q) (front : s.bytes ≠ []) (back : q ≠ []) :
    readEvents (fuel + 1) s = ([], .raised) := by
  have unended : '\n' ∉ s.bytes := fun member =>
    newline_object e (part ▸ List.mem_append_left q member)
  have size := length_encode valid
  rw [length_line, part, List.length_append] at size
  obtain ⟨s', read, _⟩ := readline_rest unended (by omega)
  simp only [readEvents, read, if_neg front, accept_cut part front back]
  rw [if_neg (by omega)]

theorem readEvents_line {e : HidEvent} (valid : e.valid) (known : Known e) {s' : Source Char}
    {r : List Char} (blank : Json.skip r = []) (short : r.length ≤ 1)
    (read : readline s = some ((object e).toList ++ r, s')) :
    readEvents (fuel + 1) s = (e.event :: (readEvents fuel s').1, (readEvents fuel s').2) := by
  have size := length_encode valid
  rw [length_line] at size
  have pos := object_pos e
  have nonempty : (object e).toList ++ r ≠ [] := by
    intro none
    rw [(List.append_eq_nil_iff.mp none).1] at pos
    cases pos
  have within : ¬ 512 < ((object e).toList ++ r).length := by
    rw [List.length_append]
    omega
  simp only [readEvents, read, if_neg nonempty, if_neg within, accept_whole valid known blank]
  obtain ⟨type, a, b, down⟩ := e
  cases type <;> rfl

end

/-- What a cut leaves is whole objects, then nothing or a part of one. -/
theorem readEvents_cut {es : List HidEvent} (valid : ∀ e ∈ es, e.valid ∧ Known e) {cut fuel : Nat}
    (enough : es.length < fuel) {s : Source Char} (stream : s.bytes = (es.flatMap encode).take cut)
    (start : Nat) :
    (readEvents fuel s).1 =
        ((braces start es).filter fun p => p.2 < start + cut).map (fun p => p.1.event) ∧
      ((readEvents fuel s).2 = .raised ↔ Torn cut es) := by
  induction es generalizing cut fuel s start with
  | nil =>
    obtain ⟨fuel, rfl⟩ := Nat.exists_eq_succ_of_ne_zero (Nat.ne_of_gt enough)
    have ended : s.bytes = [] := by simpa using stream
    rw [readEvents_end ended]
    refine ⟨rfl, by simp, ?_⟩
    rintro ⟨front, e, back, same, _⟩
    simp at same
  | cons e es ih =>
    obtain ⟨fuel, rfl⟩ := Nat.exists_eq_succ_of_ne_zero (Nat.ne_of_gt (Nat.zero_lt_of_lt enough))
    obtain ⟨⟨inRange, known⟩, others⟩ := List.forall_mem_cons.mp valid
    have size := length_line e
    have short := length_encode inRange
    have pos := object_pos e
    rw [List.flatMap_cons] at stream
    by_cases whole : (object e).toList.length ≤ cut
    · have brace : start + (object e).toList.length - 1 < start + cut := by omega
      rw [braces, List.filter_cons_of_pos (by simpa using brace), List.map_cons]
      by_cases behind : (encode e).length ≤ cut
      · have line : s.bytes = (object e).toList ++ '\n' ::
            (es.flatMap encode).take (cut - (encode e).length) := by
          rw [stream, List.take_append, List.take_of_length_le behind, encode, List.append_assoc]
          rfl
        obtain ⟨s', read, rest⟩ := readline_line line (newline_object e) (by omega)
        obtain ⟨accepted, ending⟩ :=
          ih others (Nat.lt_of_succ_lt_succ enough) rest (start + (encode e).length)
        have same : start + (encode e).length + (cut - (encode e).length) = start + cut := by omega
        rw [same] at accepted
        rw [readEvents_line inRange known rfl (by simp) read, torn_behind behind]
        exact ⟨congrArg (e.event :: ·) accepted, ending⟩
      · have last : cut = (object e).toList.length := by omega
        have all : s.bytes = (object e).toList := by
          rw [stream, last, encode, List.append_assoc, List.take_left]
        obtain ⟨s', read, ended⟩ := readline_rest (s := s) (all ▸ newline_object e)
          (by rw [all]; omega)
        rw [all, ← List.append_nil (object e).toList] at read
        obtain ⟨fuel, rfl⟩ := Nat.exists_eq_succ_of_ne_zero
          (Nat.ne_of_gt (Nat.zero_lt_of_lt (Nat.lt_of_succ_lt_succ enough)))
        rw [readEvents_line inRange known rfl (by simp) read, readEvents_end ended,
          braces_late (by omega), torn_here (by omega)]
        exact ⟨rfl, by simp [last]⟩
    · have early : cut < (encode e).length := by omega
      rw [braces, List.filter_cons_of_neg (by simp; omega), braces_late (by omega), torn_here early]
      have part : s.bytes = (object e).toList.take cut := by
        rw [stream, encode, List.append_assoc, List.take_append_of_le_length (by omega)]
      by_cases nothing : cut = 0
      · have ended : s.bytes = [] := by rw [part, nothing, List.take_zero]
        rw [readEvents_end ended]
        exact ⟨rfl, by simp [nothing]⟩
      · have front : s.bytes ≠ [] := by
          intro ended
          have size := congrArg List.length (part.symm.trans ended)
          rw [List.length_take, List.length_nil] at size
          omega
        have back : (object e).toList.drop cut ≠ [] := by
          intro ended
          have size := congrArg List.length ended
          rw [List.length_drop, List.length_nil] at size
          omega
        have written : (object e).toList = s.bytes ++ (object e).toList.drop cut := by
          rw [part, List.take_append_drop]
        rw [readEvents_part inRange written front back]
        exact ⟨rfl, by simp; omega⟩

/-- The lines of submitted events on a connection that ends anywhere and comes in any pieces:
the server accepts the events whose closing brace is in front of the cut, as they were
submitted and in order, and it refuses a part of another. -/
theorem lines_cut (es : List HidEvent)
    (submitted : ∀ e ∈ es, (∃ c : HidClient, (c.submit e).1) ∧ Known e) (cut : Nat)
    (s : Source Char) (stream : s.bytes = (es.flatMap encode).take cut) (fuel : Nat)
    (enough : es.length < fuel) :
    (readEvents fuel s).1 = ((braces 0 es).filter fun p => p.2 < cut).map (fun p => p.1.event) ∧
      ((readEvents fuel s).2 = .raised ↔ Torn cut es) ∧ ∀ e ∈ es, (encode e).length ≤ 512 := by
  have valid : ∀ e ∈ es, e.valid ∧ Known e := by
    intro e member
    obtain ⟨⟨c, accepted⟩, known⟩ := submitted e member
    exact ⟨valid_of_submit accepted, known⟩
  obtain ⟨accepted, ending⟩ := readEvents_cut valid enough stream 0
  rw [Nat.zero_add] at accepted
  refine ⟨accepted, ending, fun e member => ?_⟩
  have short := length_encode (valid e member).1
  omega

theorem lines_cut_motion :
    let es : List HidEvent := [⟨.key, 0x41, 0, true⟩, ⟨.move, -3, 70, false⟩]
    let text := (es.flatMap encode).take 40
    let s : Source Char := ⟨text.take 7, [text.drop 7]⟩
    (readEvents 3 s).1 = [.key 0x41 true] ∧ (readEvents 3 s).2 = .raised ∧
      (encode ⟨.move, -3, 70, false⟩).length ≤ 512 := by
  intro es text s
  have submitted : ∀ e ∈ es, (∃ c : HidClient, (c.submit e).1) ∧ Known e := by
    intro e member
    have either : e = ⟨.key, 0x41, 0, true⟩ ∨ e = ⟨.move, -3, 70, false⟩ := by
      simpa [es] using member
    rcases either with rfl | rfl
    · exact ⟨⟨⟨false, true, false, []⟩, by decide⟩, fun _ => by decide⟩
    · exact ⟨⟨⟨false, true, false, []⟩, by decide⟩, fun key => by cases key⟩
  have stream : s.bytes = (es.flatMap encode).take 40 := by
    simp only [s, Source.bytes, List.flatten_cons, List.flatten_nil, List.append_nil,
      List.take_append_drop]
    rfl
  obtain ⟨accepted, ending, short⟩ := lines_cut es submitted 40 s stream 3 (by decide)
  refine ⟨accepted.trans (by decide +kernel), ending.mpr ?_, short _ (by simp [es])⟩
  exact ⟨[⟨.key, 0x41, 0, true⟩], ⟨.move, -3, 70, false⟩, [], rfl, by decide +kernel, by decide +kernel⟩

end Hid.LineProtocol

import RkmoonKvm.Library.Runs
import RkmoonKvm.Hid.Queues

/-! The queues of the two sides, each as its own code has it, at every capacity: up to the first refusal
they accept the same events, hold the same ones and give out the same ones; then only one of them goes on. -/
namespace Hid
open Coalesce Runs

namespace HidClient

def pushBack (bound : Nat) (c : HidClient) (e : HidEvent) : Bool × HidClient :=
  if bound ≤ c.events.length then (false, { c with healthy := false })
  else (true, { c with events := c.events ++ [e] })

/-- `submit` with a bound of its own in place of 64. -/
def submitWithin (bound : Nat) (c : HidClient) (e : HidEvent) : Bool × HidClient :=
  if !c.healthy || c.stop then (false, c)
  else if c.misrouted e then (false, { c with healthy := false })
  else if !e.valid then (false, { c with healthy := false })
  else match c.events.getLast? with
  | none => pushBack bound c e
  | some back =>
    let x := back.a + e.a
    let y := back.b + e.b
    if e.type = .absolute ∧ back.type = .absolute then
      (true, { c with events := c.events.dropLast ++ [e] })
    else if e.type = .move ∧ back.type = .move ∧ -32767 ≤ x ∧ x ≤ 32767 ∧ -32767 ≤ y ∧ y ≤ 32767 then
      (true, { c with events := c.events.dropLast ++ [{ back with a := x, b := y }] })
    else pushBack bound c e

def popFront (c : HidClient) : Option (HidEvent × HidClient) :=
  match c.events with
  | [] => none
  | e :: events => some (e, { c with events })

end HidClient

structure InputQueue where
  capacity : Nat
  items : List Event := []

namespace InputQueue

def append (q : InputQueue) (e : Event) : Except PyError Unit × InputQueue :=
  if q.capacity ≤ q.items.length then (.error (.inputError "input queue saturated; revoke lease"), q)
  else (.ok (), { q with items := q.items ++ [e] })

def put (q : InputQueue) (e : Event) : Except PyError Unit × InputQueue :=
  match e, q.items.getLast? with
  | .absolute x y, some (.absolute _ _) => (.ok (), { q with items := q.items.dropLast ++ [.absolute x y] })
  | .move x' y', some (.move x y) =>
    if (x + x').natAbs ≤ 32767 ∧ (y + y').natAbs ≤ 32767 then
      (.ok (), { q with items := q.items.dropLast ++ [.move (x + x') (y + y')] })
    else q.append (.move x' y')
  | e, _ => q.append e

def pop (q : InputQueue) : Option (Event × InputQueue) :=
  match q.items with
  | [] => none
  | e :: items => some (e, { q with items })

end InputQueue

/-! Both are the bounded queue that merges adjacent motion. -/

theorem merge_eq (back e : HidEvent) : back.merge e =
    if e.type = .absolute ∧ back.type = .absolute then some e
    else if e.type = .move ∧ back.type = .move ∧ -32767 ≤ back.a + e.a ∧ back.a + e.a ≤ 32767 ∧
        -32767 ≤ back.b + e.b ∧ back.b + e.b ≤ 32767 then
      some { back with a := back.a + e.a, b := back.b + e.b }
    else none := by
  obtain ⟨type, a, b, down⟩ := back
  obtain ⟨type', a', b', down'⟩ := e
  cases type <;> cases type' <;> simp [HidEvent.merge]

theorem pushBack_eq (bound : Nat) (c : HidClient) (e : HidEvent) : c.pushBack bound e =
    match (if c.events.length < bound then some (c.events ++ [e]) else none) with
      | some events => (true, { c with events })
      | none => (false, { c with healthy := false }) := by
  unfold HidClient.pushBack
  split
  next full => rw [if_neg (Nat.not_lt.mpr full)]
  next room => rw [if_pos (Nat.lt_of_not_le room)]

theorem submitWithin_live {bound : Nat} {c : HidClient} {e : HidEvent} (live : (!c.healthy || c.stop) = false)
    (routed : c.misrouted e = false) (valid : e.valid = true) :
    c.submitWithin bound e = match push HidEvent.merge bound c.events e with
      | some events => (true, { c with events })
      | none => (false, { c with healthy := false }) := by
  unfold HidClient.submitWithin push
  rw [live, routed, valid, if_neg (by decide), if_neg (by decide), if_neg (by decide)]
  cases c.events.getLast? with
  | none => exact pushBack_eq bound c e
  | some back =>
    dsimp only [Option.bind_some]
    rw [merge_eq]
    split
    · rfl
    · split
      · rfl
      · exact pushBack_eq bound c e

theorem submitWithin_dead {bound : Nat} {c : HidClient} (dead : (!c.healthy || c.stop) = true) (e : HidEvent) :
    c.submitWithin bound e = (false, c) := if_pos dead

theorem submitWithin_64 (c : HidClient) (e : HidEvent) : c.submitWithin 64 e = c.submit e := by
  unfold HidClient.submit
  cases live : !c.healthy || c.stop with
  | true => simp [HidClient.submitWithin, live]
  | false =>
    cases routed : c.misrouted e with
    | true => simp [HidClient.submitWithin, live, routed]
    | false =>
      cases valid : e.valid with
      | false => simp [HidClient.submitWithin, live, routed, valid]
      | true =>
        rw [submitWithin_live live routed valid]
        rfl

theorem append_eq (q : InputQueue) (e : Event) : q.append e =
    match (if q.items.length < q.capacity then some (q.items ++ [e]) else none) with
      | some items => (.ok (), { q with items })
      | none => (.error (.inputError "input queue saturated; revoke lease"), q) := by
  unfold InputQueue.append
  split
  next full => rw [if_neg (Nat.not_lt.mpr full)]
  next room => rw [if_pos (Nat.lt_of_not_le room)]

theorem inputQueue_put (q : InputQueue) (e : Event) : q.put e =
    match push Event.merge q.capacity q.items e with
      | some items => (.ok (), { q with items })
      | none => (.error (.inputError "input queue saturated; revoke lease"), q) := by
  unfold InputQueue.put push
  split
  next x y _ _ last =>
    rw [last]
    rfl
  next x' y' x y last =>
    rw [last]
    dsimp only [Option.bind_some, Event.merge]
    split
    · rfl
    · exact append_eq q _
  next e _ _ apart apart' =>
    cases known : q.items.getLast? with
    | none => exact append_eq q e
    | some back =>
      have other : back.merge e = none := by
        cases e with
        | absolute x y =>
          cases back with
          | absolute x' y' => exact (apart _ _ _ _ rfl known).elim
          | _ => rfl
        | move x y =>
          cases back with
          | move x' y' => exact (apart' _ _ _ _ rfl known).elim
          | _ => rfl
        | _ => cases back <;> rfl
      dsimp only [Option.bind_some]
      rw [other]
      exact append_eq q e

theorem event_merge_eq (back e : HidEvent) :
    back.event.merge e.event = (back.merge e).map HidEvent.event := by
  have within (n : Int) : n.natAbs ≤ 32767 ↔ -32767 ≤ n ∧ n ≤ 32767 := by omega
  obtain ⟨type, a, b, down⟩ := back
  obtain ⟨type', a', b', down'⟩ := e
  cases type <;> cases type' <;> try rfl
  simp only [HidEvent.event, Event.merge, HidEvent.merge, within, and_assoc]
  split <;> rfl

namespace Bounded

/-- A valid event whose motion, if it is motion, is of the kind of the lease. -/
structure Put (absolute : Bool) where
  event : HidEvent
  valid : event.valid = true
  positions : event.type = .absolute → absolute = true
  moves : event.type = .move → absolute = false

inductive Op (absolute : Bool) where
  | put (p : Put absolute)
  | pop

/-- A queue in use, with what it has accepted and given out. -/
structure Side (Q E : Type) where
  queue : Q
  accepted : List E := []
  popped : List E := []
  refused : Bool := false

variable {absolute : Bool}

def Side.take {Q E : Type} (s : Side Q E) (front : Option (E × Q)) : Side Q E :=
  match front with
  | none => s
  | some (e, queue) => { s with queue, popped := s.popped ++ [e] }

def clientStep (bound : Nat) (s : Side HidClient HidEvent) : Op absolute → Side HidClient HidEvent
  | .put p =>
    match s.queue.submitWithin bound p.event with
    | (true, queue) => { s with queue, accepted := s.accepted ++ [p.event] }
    | (false, queue) => { s with queue, refused := true }
  | .pop => s.take s.queue.popFront

def queueStep (s : Side InputQueue Event) : Op absolute → Side InputQueue Event
  | .put p =>
    match s.queue.put p.event.event with
    | (.ok (), queue) => { s with queue, accepted := s.accepted ++ [p.event.event] }
    | (.error _, queue) => { s with queue, refused := true }
  | .pop => s.take s.queue.pop

def puts (ops : List (Op absolute)) : List HidEvent :=
  ops.filterMap fun
    | .put p => some p.event
    | .pop => none

theorem routed (p : Put absolute) {c : HidClient} (mode : c.absoluteMouse = absolute) :
    c.misrouted p.event = false := by
  unfold HidClient.misrouted
  rw [mode]
  cases known : p.event.type with
  | absolute => simp [p.positions known]
  | move => simp [p.moves known]
  | _ => rfl

structure Same (c : Side HidClient HidEvent) (q : Side InputQueue Event) : Prop where
  items : q.queue.items = c.queue.events.map HidEvent.event
  accepted : q.accepted = c.accepted.map HidEvent.event
  popped : q.popped = c.popped.map HidEvent.event

def Ranged (x y : Int) : Prop := -32767 ≤ x ∧ x ≤ 32767 ∧ -32767 ≤ y ∧ y ≤ 32767

structure Agrees (bound : Nat) (absolute : Bool) (offered : List HidEvent) (c : Side HidClient HidEvent)
    (q : Side InputQueue Event) : Prop where
  mode : c.queue.absoluteMouse = absolute
  running : c.queue.stop = false
  healthy : c.queue.healthy = !c.refused
  capacity : q.queue.capacity = bound
  refused : q.refused = c.refused
  same : c.refused = false → Same c q
  all : c.refused = false → c.accepted = offered
  first : c.accepted <+: offered
  part : c.accepted.map HidEvent.event <+: q.accepted
  short : c.queue.events.length ≤ bound
  short' : q.queue.items.length ≤ bound
  valid : ∀ e ∈ c.queue.events, e.valid = true
  ranged : ∀ e ∈ q.queue.items, ∀ x y, e = .move x y → Ranged x y

variable {bound : Nat} {offered : List HidEvent} {c : Side HidClient HidEvent} {q : Side InputQueue Event}

theorem merge_valid (back e m : HidEvent) (new : e.valid = true)
    (merged : back.merge e = some m) : m.valid = true := by
  rw [merge_eq] at merged
  split at merged
  · cases merged
    exact new
  · split at merged
    next both =>
      cases merged
      obtain ⟨_, move, range⟩ := both
      simp only [HidEvent.valid, move, decide_eq_true_eq]
      exact range
    next => cases merged

theorem merge_ranged (back e m : Event) (merged : back.merge e = some m) (x y : Int)
    (move : m = .move x y) : Ranged x y := by
  unfold Event.merge at merged
  split at merged
  · cases merged
    cases move
  · split at merged
    next within =>
      cases merged
      cases move
      unfold Ranged
      omega
    next => cases merged
  · cases merged

theorem valid_ranged {e : HidEvent} (valid : e.valid = true) (x y : Int) (move : e.event = .move x y) :
    Ranged x y := by
  obtain ⟨type, a, b, down⟩ := e
  cases type with
  | move =>
    cases move
    simpa only [HidEvent.valid, decide_eq_true_eq, Ranged] using valid
  | _ => cases move

theorem clientStep_put {p : Put absolute} (healthy : c.queue.healthy = !c.refused) (running : c.queue.stop = false)
    (mode : c.queue.absoluteMouse = absolute) (live : c.refused = false) :
    clientStep bound c (.put p) = match push HidEvent.merge bound c.queue.events p.event with
      | some events =>
        { c with queue := { c.queue with events }, accepted := c.accepted ++ [p.event] }
      | none => { c with queue := { c.queue with healthy := false }, refused := true } := by
  have live : (!c.queue.healthy || c.queue.stop) = false := by simp [healthy, live, running]
  unfold clientStep
  dsimp only
  rw [submitWithin_live live (routed p mode) p.valid]
  cases push HidEvent.merge bound c.queue.events p.event <;> rfl

theorem queueStep_put (p : Put absolute) : queueStep q (.put p) =
    match push Event.merge q.queue.capacity q.queue.items p.event.event with
      | some items =>
        { q with queue := { q.queue with items }, accepted := q.accepted ++ [p.event.event] }
      | none => { q with refused := true } := by
  unfold queueStep
  dsimp only
  rw [inputQueue_put]
  cases push Event.merge q.queue.capacity q.queue.items p.event.event <;> rfl

theorem put_fits (h : Agrees bound absolute offered c q) (p : Put absolute) {items : List Event}
    (pushed : push Event.merge bound q.queue.items p.event.event = some items) :
    items.length ≤ bound ∧ ∀ e ∈ items, ∀ x y, e = .move x y → Ranged x y :=
  ⟨push_length pushed h.short', push_forall (fun back m _ => merge_ranged back _ m) pushed
    (valid_ranged p.valid) h.ranged⟩

theorem agrees_put_ended (h : Agrees bound absolute offered c q) (p : Put absolute) (ended : c.refused = true) :
    Agrees bound absolute (offered ++ [p.event]) (clientStep bound c (.put p)) (queueStep q (.put p)) := by
  have later : c.accepted <+: offered ++ [p.event] := h.first.trans (List.prefix_append _ _)
  have dead : (!c.queue.healthy || c.queue.stop) = true := by simp [h.healthy, ended]
  have stays : clientStep bound c (.put p) = c := by
    unfold clientStep
    dsimp only
    rw [submitWithin_dead dead, ← ended]
  have never {P : Prop} (open_ : c.refused = false) : P := by cases ended.symm.trans open_
  rw [stays, queueStep_put, h.capacity]
  cases pushed : push Event.merge bound q.queue.items p.event.event with
  | none => exact { h with refused := ended.symm, same := never, all := never, first := later }
  | some items =>
    obtain ⟨short', ranged⟩ := put_fits h p pushed
    exact { h with
      capacity := h.capacity, same := never, all := never, first := later
      part := h.part.trans (List.prefix_append _ _)
      short', ranged }

theorem agrees_put_open (h : Agrees bound absolute offered c q) (p : Put absolute) (open_ : c.refused = false) :
    Agrees bound absolute (offered ++ [p.event]) (clientStep bound c (.put p)) (queueStep q (.put p)) := by
  obtain ⟨items, accepted, popped⟩ := h.same open_
  have kept := h.all open_
  have pushed := push_map (f := HidEvent.event) (a := p.event) (fun last => event_merge_eq last p.event)
    bound c.queue.events
  have fits {items : List Event} (pushed : push Event.merge bound q.queue.items p.event.event = some items) :=
    put_fits h p pushed
  rw [clientStep_put h.healthy h.running h.mode open_, queueStep_put, h.capacity]
  rw [items, pushed] at fits ⊢
  cases added : push HidEvent.merge bound c.queue.events p.event with
  | none =>
    exact { h with
      healthy := rfl, refused := rfl, first := h.first.trans (List.prefix_append _ _)
      same := fun open_ => by cases open_
      all := fun open_ => by cases open_ }
  | some events =>
    obtain ⟨short', ranged⟩ := fits (congrArg (Option.map _) added)
    have same : q.accepted ++ [p.event.event] = (c.accepted ++ [p.event]).map HidEvent.event := by
      rw [accepted, List.map_append]
      rfl
    exact { h with
      capacity := h.capacity, short', ranged
      same := fun _ => ⟨rfl, same, popped⟩
      first := by rw [kept]
      all := fun _ => by rw [kept]
      part := same ▸ List.prefix_rfl
      short := push_length added h.short
      valid := push_forall (fun back m _ merged => merge_valid back p.event m p.valid merged)
        added p.valid h.valid }

theorem agrees_put (h : Agrees bound absolute offered c q) (p : Put absolute) :
    Agrees bound absolute (offered ++ [p.event]) (clientStep bound c (.put p)) (queueStep q (.put p)) := by
  cases ended : c.refused with
  | true => exact agrees_put_ended h p ended
  | false => exact agrees_put_open h p ended

theorem take_pop (q : Side InputQueue Event) : q.take q.queue.pop =
    { q with
      queue := { q.queue with items := q.queue.items.tail }, popped := q.popped ++ q.queue.items.head?.toList } := by
  obtain ⟨⟨capacity, items⟩, accepted, popped, refused⟩ := q
  cases items with
  | nil => simp [Side.take, InputQueue.pop]
  | cons e items => rfl

theorem take_popFront (c : Side HidClient HidEvent) : c.take c.queue.popFront =
    { c with
      queue := { c.queue with events := c.queue.events.tail }
      popped := c.popped ++ c.queue.events.head?.toList } := by
  obtain ⟨⟨absoluteMouse, healthy, stop, events⟩, accepted, popped, refused⟩ := c
  cases events with
  | nil => simp [Side.take, HidClient.popFront]
  | cons e events => rfl

theorem same_pop (bound : Nat) (absolute : Bool) (same : Same c q) :
    Same (clientStep bound c (.pop : Op absolute)) (queueStep q (.pop : Op absolute)) := by
  unfold clientStep queueStep
  dsimp only
  rw [take_pop, take_popFront]
  obtain ⟨items, accepted, popped⟩ := same
  refine ⟨?_, accepted, ?_⟩
  · simp only [items, List.map_tail]
  · simp only [items, popped, List.map_append, List.head?_map]
    cases c.queue.events.head? <;> rfl

theorem agrees_pop (h : Agrees bound absolute offered c q) :
    Agrees bound absolute offered (clientStep bound c (.pop : Op absolute))
      (queueStep q (.pop : Op absolute)) := by
  have same (open_ : c.refused = false) := same_pop bound absolute (h.same open_)
  unfold clientStep queueStep at same ⊢
  dsimp only at same ⊢
  rw [take_pop, take_popFront] at same ⊢
  exact { h with
    capacity := h.capacity, same
    short := (List.tail_sublist _).length_le.trans h.short
    short' := (List.tail_sublist _).length_le.trans h.short'
    valid := fun e member => h.valid e (List.mem_of_mem_tail member)
    ranged := fun e member => h.ranged e (List.mem_of_mem_tail member) }

theorem agrees_run (bound : Nat) (absolute : Bool) (ops : List (Op absolute)) :
    Agrees bound absolute (puts ops) (run (clientStep bound) { queue := { absoluteMouse := absolute } } ops)
      (run queueStep { queue := { capacity := bound } } ops) := by
  induction ops using List.reverseRecOn with
  | nil =>
    exact ⟨rfl, rfl, rfl, rfl, rfl, fun _ => ⟨rfl, rfl, rfl⟩, fun _ => rfl, List.prefix_rfl, List.prefix_rfl,
      Nat.zero_le _, Nat.zero_le _, nofun, nofun⟩
  | append_singleton ops op ih =>
    rw [run_concat, run_concat, puts, List.filterMap_append]
    cases op with
    | put p => exact agrees_put ih p
    | pop =>
      rw [List.filterMap_cons_none rfl, List.filterMap_nil, List.append_nil]
      exact agrees_pop ih

/-- No put comes after a refused one: the lease is revoked. -/
def Revoked (q : Side InputQueue Event) (op : Op absolute) : Prop := q.refused = true → op = .pop

theorem same_run (bound : Nat) (absolute : Bool) (ops : List (Op absolute))
    (revoked : Meets queueStep Revoked { queue := { capacity := bound } } ops) :
    Same (run (clientStep bound) { queue := { absoluteMouse := absolute } } ops)
      (run queueStep { queue := { capacity := bound } } ops) := by
  induction ops using List.reverseRecOn with
  | nil => exact ⟨rfl, rfl, rfl⟩
  | append_singleton ops op ih =>
    obtain ⟨before, last, -⟩ := meets_append.mp revoked
    have same := ih before
    have h := agrees_run bound absolute ops
    rw [run_concat, run_concat]
    cases op with
    | pop => exact same_pop bound absolute same
    | put p =>
      have open_ : (run queueStep { queue := { capacity := bound } } ops).refused = false := by
        by_contra ended
        cases last (Bool.not_eq_false _ ▸ ended)
      rw [clientStep_put h.healthy h.running h.mode (h.refused ▸ open_), queueStep_put, h.capacity, same.items,
        push_map (f := HidEvent.event) (a := p.event) (fun last => event_merge_eq last p.event)]
      cases push HidEvent.merge bound _ p.event with
      | none => exact ⟨same.items, same.accepted, same.popped⟩
      | some events =>
        refine ⟨rfl, ?_, same.popped⟩
        simp only [same.accepted, Option.map_some, List.map_append, List.map_cons, List.map_nil]

/-- The two queues refuse first at the same put, and hold the same until one is put after that; the
client then accepts nothing more. Both stay within the capacity and the range at every time. -/
theorem queues_agree (bound : Nat) (absolute : Bool) (ops : List (Op absolute)) :
    let c := run (clientStep bound) { queue := { absoluteMouse := absolute } } ops
    let q := run queueStep { queue := { capacity := bound } } ops
    (Meets queueStep Revoked { queue := { capacity := bound } } ops → Same c q) ∧
    (q.refused = c.refused ∧ c.accepted <+: puts ops ∧ c.accepted.map HidEvent.event <+: q.accepted) ∧
    (c.refused = false → c.accepted = puts ops) ∧
    (c.refused = true → ∀ e, c.queue.submitWithin bound e = (false, c.queue)) ∧
    (c.queue.events.length ≤ bound ∧ q.queue.items.length ≤ bound) ∧
    (∀ e ∈ c.queue.events, e.type = .move → Ranged e.a e.b) ∧
    (∀ x y, .move x y ∈ q.queue.items → Ranged x y) ∧
    (∀ p : Put absolute, (c.queue.submitWithin bound p.event).1 = false →
      (c.queue.submitWithin bound p.event).2.events = c.queue.events) ∧
    (∀ e error, (q.queue.put e).1 = .error error → (q.queue.put e).2 = q.queue) := by
  have h := agrees_run bound absolute ops
  intro c q
  refine ⟨same_run bound absolute ops, ⟨h.refused, h.first, h.part⟩, h.all, fun ended e => ?_,
    ⟨h.short, h.short'⟩, fun e member move => ?_, fun x y member => h.ranged _ member x y rfl, ?_, ?_⟩
  · exact submitWithin_dead (by simp [c, h.healthy, ended]) e
  · have valid := h.valid e member
    simpa only [HidEvent.valid, move, decide_eq_true_eq, Ranged] using valid
  · intro p refused
    cases dead : !c.queue.healthy || c.queue.stop with
    | true => rw [submitWithin_dead dead]
    | false =>
      rw [submitWithin_live dead (routed p h.mode) p.valid] at refused ⊢
      cases accepted : push HidEvent.merge bound c.queue.events p.event with
      | none => rfl
      | some events =>
        rw [accepted] at refused
        cases refused
  · intro e error refused
    rw [inputQueue_put] at refused ⊢
    cases accepted : push Event.merge q.queue.capacity q.queue.items e with
    | none => rfl
    | some items =>
      rw [accepted] at refused
      cases refused

def keyPut (a : Int) (valid : HidEvent.valid { type := .key, a, down := true } = true) : Op false :=
  .put ⟨{ type := .key, a, down := true }, valid, fun other => (by cases other), fun other => (by cases other)⟩

theorem queues_agree_filled :
    Same (run (clientStep 1) { queue := { absoluteMouse := false } } [keyPut 1 rfl, keyPut 2 rfl, .pop])
      (run queueStep { queue := { capacity := 1 } } [keyPut 1 rfl, keyPut 2 rfl, .pop]) :=
  (queues_agree 1 false [keyPut 1 rfl, keyPut 2 rfl, .pop]).1
    ⟨fun ended => (by cases ended), fun ended => (by cases ended), fun _ => rfl, trivial⟩

/-- A full queue that is put to again once there is room accepts, where the client does not. -/
theorem refused_queue_goes_on : ¬ ∀ (bound : Nat) (absolute : Bool) (ops : List (Op absolute)), 1 ≤ bound →
    Same (run (clientStep bound) { queue := { absoluteMouse := absolute } } ops)
      (run queueStep { queue := { capacity := bound } } ops) := by
  intro all
  have same := (all 1 false [keyPut 1 rfl, keyPut 2 rfl, .pop, keyPut 3 rfl] (Nat.le_refl 1)).accepted
  revert same
  decide

/-- A move merges into a full queue until a component would leave its range. -/
example : (run queueStep { queue := { capacity := 1 } } ([
    .put ⟨{ type := .move, a := 32000 }, by decide, nofun, fun _ => rfl⟩,
    .put ⟨{ type := .move, a := 700, b := 5 }, by decide, nofun, fun _ => rfl⟩,
    .put ⟨{ type := .move, a := 100 }, by decide, nofun, fun _ => rfl⟩] : List (Op false))).accepted =
      [.move 32000 0, .move 700 5] := by
  decide

end Bounded

end Hid

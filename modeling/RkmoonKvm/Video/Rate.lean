import RkmoonKvm.Library.Log
import RkmoonKvm.Video.Worker

/-! The target rate of the encoder over a run of the worker: the rate of the configuration,
the live changes, and what a reopened pipeline keeps of them. -/
namespace Video.Rate
open Runs Worker

inductive Event
  /-- `set_bitrate` has taken a value, with an encoder running or with none. -/
  | accepted (live : Bool) (bps : UInt32)
  | reopened
  /-- A frame was encoded, with this target rate. -/
  | encoded (bps : UInt32)
  deriving DecidableEq

def event (w : Worker.State) (l : Label) : Option Event :=
  match l with
  | .control m =>
    if m.h.kind = .bitrate ∧ w.phase.reads ∧ (setBitrate m.h.extra w).isOk then
      some (.accepted w.encoder.isSome m.h.extra)
    else none
  | .frame clock dequeueUs out =>
    match w.phase, w.encoder with
    | .picking, some e =>
      if (encodeSend e dequeueUs out (testIdr clock w)).isOk then some (.encoded e.config.bitrate)
      else none
    | _, _ => none
  | l => if (Worker.step w l).history = w.history ++ [.reopened] then some .reopened else none

structure State where
  worker : Worker.State
  log : List Event := []

def step (s : State) (l : Label) : State where
  worker := Worker.step s.worker l
  log := s.log ++ (event s.worker l).toList

def start (w : Worker.State) : State := { worker := w }

def target (rate : UInt32) (log : List Event) : UInt32 :=
  log.foldl (fun rate e => match e with | .accepted _ bps => bps | _ => rate) rate

def Kept (rate : UInt32) (log : List Event) : Prop :=
  ∀ before bps after, log = before ++ .encoded bps :: after → bps = target rate before

/-- Whether the value accepted last is lost: a value given to a running encoder is lost when the
pipeline is next reopened, a value taken with no encoder is spared the reopen that applies it, and
the value 0 is not even applied. -/
structure Book where
  spare : Nat := 0
  lost : Bool := false

def Book.note (b : Book) : Event → Book
  | .accepted live bps => { spare := if live || bps = 0 then 0 else 1 }
  | .reopened => if b.spare = 0 then { lost := true } else { b with spare := b.spare - 1 }
  | .encoded _ => b

def book (log : List Event) : Book := log.foldl Book.note {}

/-- A frame is encoded after the value accepted last, another than the start rate, was lost. -/
def Forgets (rate : UInt32) (log : List Event) : Prop :=
  ∃ before bps after, log = before ++ .encoded bps :: after ∧ (book before).lost ∧
    target rate before ≠ rate

@[simp] theorem target_concat (rate : UInt32) (log : List Event) (e : Event) :
    target rate (log ++ [e]) = match e with | .accepted _ bps => bps | _ => target rate log := by
  rw [target, List.foldl_append, List.foldl_cons, List.foldl_nil, ← target]

@[simp] theorem book_concat (log : List Event) (e : Event) :
    book (log ++ [e]) = (book log).note e := by
  rw [book, List.foldl_append, List.foldl_cons, List.foldl_nil, ← book]

def rated (rate : UInt32) (log : List Event) : UInt32 :=
  if (book log).lost then rate else target rate log

def rateOf (w : Worker.State) : Option UInt32 := w.encoder.map (·.config.bitrate)

/-- What a step does to the encoder's rate and to the value kept for the next encoder. -/
inductive Rates (w w' : Worker.State) : Option Event → Prop
  | same (encoder : rateOf w' = rateOf w)
      (pending : w'.pendingBitrate = w.pendingBitrate) : Rates w w' none
  | encodes (bps : UInt32) (was : rateOf w = some bps) (encoder : rateOf w' = rateOf w)
      (pending : w'.pendingBitrate = w.pendingBitrate) : Rates w w' (some (.encoded bps))
  | live (bps : UInt32) (encoder : rateOf w' = some bps) (pending : w'.pendingBitrate = 0) :
      Rates w w' (some (.accepted true bps))
  | down (bps : UInt32) (was : rateOf w = none) (encoder : rateOf w' = none)
      (pending : w'.pendingBitrate = bps) : Rates w w' (some (.accepted false bps))
  | closes (encoder : rateOf w' = none) (pending : w'.pendingBitrate = w.pendingBitrate) :
      Rates w w' none
  | reopens (encoder : rateOf w' = some (resumedRate w)) (pending : w'.pendingBitrate = 0) :
      Rates w w' (some .reopened)

theorem rates_recover {now : UInt64} {r : Reopen} {w w₁ : Worker.State}
    (config : w₁.config = w.config) (history : w₁.history = w.history)
    (pending : w₁.pendingBitrate = w.pendingBitrate) {w' : Worker.State}
    (after : w' = settle w (recoverResume now r w₁)) :
    Rates w w' (if w'.history = w.history ++ [.reopened] then some .reopened else none) := by
  cases result : recoverResume now r w₁ with
  | error x =>
    rw [result] at after
    have same : w'.history ≠ w.history ++ [.reopened] := by simp [after, settle]
    rw [if_neg same]
    exact .same (by rw [after, settle, rateOf, rateOf]) (by rw [after, settle])
  | ok w'' =>
    obtain rfl : w' = w'' := by rw [after, result, settle]
    cases recover_ok result with
    | stops stopped done =>
      have same : w'.history ≠ w.history ++ [.reopened] := by simp [done, history]
      rw [if_neg same]
      exact .closes (by rw [done, rateOf, Option.map_none]) (by rw [done, ← pending])
    | fails live done =>
      have other : w'.history ≠ w.history ++ [.reopened] := by simp [done, history]
      rw [if_neg other]
      exact .closes (by rw [done, rateOf, Option.map_none]) (by rw [done, ← pending])
    | reopens live e last changed done =>
      have grown : w'.history = w.history ++ [.reopened] := by rw [done, ← history]
      have rate : resumedRate w₁ = resumedRate w := by rw [resumedRate, resumedRate, pending, config]
      rw [if_pos grown]
      exact .reopens (by rw [done, rateOf, Option.map_some, changed, ← rate]) (by rw [done])

theorem rates_control (m : Message) (w : Worker.State) :
    Rates w (Worker.step w (.control m)) (event w (.control m)) := by
  rw [event, Worker.step]
  by_cases taken : m.h.kind = .bitrate ∧ w.phase.reads
  · obtain ⟨bitrate, reading⟩ := taken
    rw [control_bitrate bitrate reading]
    cases changed : setBitrate m.h.extra w with
    | error x =>
      have refused : (Except.error x : Except String Worker.State).isOk = false := rfl
      rw [if_neg (by simp [refused])]
      exact .same rfl rfl
    | ok w' =>
      rw [if_pos ⟨bitrate, reading, rfl⟩, settle]
      rcases setBitrate_ok changed with ⟨e, e', was, set, rfl⟩ | ⟨was, rfl⟩
      · obtain ⟨_, rfl⟩ := bitrate_ok set
        rw [was]
        exact .live m.h.extra rfl rfl
      · rw [was]
        exact .down m.h.extra (by rw [rateOf, was, Option.map_none]) rfl rfl
  · rw [if_neg fun accepted => taken ⟨accepted.1, accepted.2.1⟩]
    cases done : Worker.control m w with
    | error x => exact .same rfl rfl
    | ok w' =>
      rw [settle]
      rcases control_ok done with rfl | ⟨code, rfl⟩ | ⟨_, rfl⟩ | ⟨bitrate, reading, _⟩ | ⟨_, _, rfl⟩
      · exact .same rfl rfl
      · exact .same rfl rfl
      · exact .same rfl rfl
      · exact absurd ⟨bitrate, reading⟩ taken
      · exact .same rfl rfl

theorem testIdr_same (clock : UInt64) (w : Worker.State) :
    (testIdr clock w).config = w.config ∧ (testIdr clock w).history = w.history ∧
      (testIdr clock w).encoder = w.encoder ∧ (testIdr clock w).pendingBitrate = w.pendingBitrate := by
  unfold testIdr
  split <;> exact ⟨rfl, rfl, rfl, rfl⟩

theorem rates_idle {w w' : Worker.State}
    (idle : w'.encoder = w.encoder ∧ w'.pendingBitrate = w.pendingBitrate ∧ w'.history = w.history) :
    Rates w w' (if w'.history = w.history ++ [.reopened] then some .reopened else none) := by
  obtain ⟨encoder, pending, history⟩ := idle
  rw [if_neg (by rw [history]; simp)]
  exact .same (by rw [rateOf, rateOf, encoder]) pending

theorem rates_tries (w : Worker.State) (now : UInt64) (r : Reopen) (w₁ : Worker.State) {w' : Worker.State}
    (config : w₁.config = w.config) (history : w₁.history = w.history)
    (pending : w₁.pendingBitrate = w.pendingBitrate)
    (outcome : w' = settle w (recoverResume now r w₁) ∨ w' = w) :
    Rates w w' (if w'.history = w.history ++ [.reopened] then some .reopened else none) := by
  rcases outcome with tried | idle
  · exact rates_recover config history pending tried
  · rw [idle]
    exact rates_idle ⟨rfl, rfl, rfl⟩

theorem step_rates (w : Worker.State) (l : Label) : Rates w (Worker.step w l) (event w l) := by
  cases l with
  | control m => exact rates_control m w
  | signal => exact rates_idle ⟨rfl, rfl, rfl⟩
  | turn | drained | interrupted | broken =>
    refine rates_idle ?_
    simp only [Worker.step]
    split <;> exact ⟨rfl, rfl, rfl⟩
  | unchanged clock after =>
    refine rates_idle ?_
    simp only [Worker.step]
    split <;> exact ⟨rfl, rfl, rfl⟩
  | reopen now r =>
    apply rates_tries w now r w rfl rfl rfl
    simp only [Worker.step]
    split
    · exact .inl rfl
    · exact .inr rfl
  | fault clock now r =>
    obtain ⟨config, history, _, pending⟩ := testIdr_same clock w
    apply rates_tries w now r (testIdr clock w) config history pending
    simp only [Worker.step]
    split
    · exact .inl rfl
    · exact .inr rfl
  | changed clock after now r =>
    apply rates_tries w now r { w with lastCheck := after } rfl rfl rfl
    simp only [Worker.step]
    split
    · exact .inl rfl
    · exact .inr rfl
  | frame clock dequeueUs out =>
    obtain ⟨_, _, encoder, pending⟩ := testIdr_same clock w
    by_cases picking : w.phase = .picking
    · cases was : w.encoder with
      | none =>
        simp only [event, Worker.step, picking, was]
        exact .same rfl rfl
      | some e =>
        simp only [event, Worker.step, picking, was]
        cases sent : encodeSend e dequeueUs out (testIdr clock w) with
        | error x =>
          have refused : (Except.error x : Except String Worker.State).isOk = false := rfl
          rw [if_neg (by simp [refused])]
          exact .same rfl rfl
        | ok w' =>
          obtain ⟨m, e', encoded, done⟩ := encodeSend_ok sent
          obtain ⟨_, same, _⟩ := encode_ok encoded
          have fine : (Except.ok w' : Except String Worker.State).isOk := rfl
          rw [if_pos fine, settle]
          refine .encodes e.config.bitrate (by rw [rateOf, was, Option.map_some]) ?_
            (by rw [done]; exact pending)
          rw [done, rateOf, rateOf, was, Option.map_some, Option.map_some, same]
    · have stays : Worker.step w (.frame clock dequeueUs out) = w := by
        simp only [Worker.step]
        split
        next e at_ _ => exact absurd at_ picking
        next => rfl
      have none : event w (.frame clock dequeueUs out) = none := by
        simp only [event]
        split
        next e at_ _ => exact absurd at_ picking
        next => rfl
      rw [stays, none]
      exact .same rfl rfl

/-- The encoder runs at the rate that the log tells, and no value waits for it; without an encoder
the value kept for the next one does. -/
structure Inv (rate : UInt32) (s : State) : Prop where
  config : s.worker.config.bitrate = rate
  spare : (book s.log).spare ≤ 1
  running : ∀ bps, rateOf s.worker = some bps →
    bps = rated rate s.log ∧ s.worker.pendingBitrate = 0 ∧ (book s.log).spare = 0
  waiting : rateOf s.worker = none → resumedRate s.worker = rated rate (s.log ++ [.reopened])
  told : ∀ before bps after, s.log = before ++ .encoded bps :: after → bps = rated rate before

theorem rated_encoded (rate bps : UInt32) (log : List Event) :
    rated rate (log ++ [.encoded bps]) = rated rate log := by
  rw [rated, rated, book_concat, target_concat]
  rfl

theorem rated_reopened (rate : UInt32) {log : List Event} (spent : (book log).spare = 0) :
    rated rate (log ++ [.reopened]) = rate := by
  rw [rated, book_concat, Book.note, if_pos spent, if_pos rfl]

theorem rated_accepted (rate : UInt32) (live : Bool) (bps : UInt32) (log : List Event) :
    rated rate (log ++ [.accepted live bps]) = bps := by
  rw [rated, book_concat, target_concat]
  rfl

theorem spare_reopened {log : List Event} (spare : (book log).spare ≤ 1) :
    (book (log ++ [.reopened])).spare = 0 := by
  rw [book_concat, Book.note]
  split
  · rfl
  · dsimp only
    omega

/-- A value taken without an encoder is applied by the reopen, unless it is 0. -/
theorem rated_applied (rate bps : UInt32) (log : List Event) :
    rated rate (log ++ [.accepted false bps] ++ [.reopened]) = if bps ≠ 0 then bps else rate := by
  rw [rated, book_concat, book_concat, target_concat, target_concat]
  by_cases zero : bps = 0
  · simp [Book.note, zero]
  · simp [Book.note, zero]

theorem settle_config {w : Worker.State} {next : Except String Worker.State}
    (same : ∀ w', next = .ok w' → w'.config = w.config) : (settle w next).config = w.config := by
  cases next with
  | ok w' => exact same w' rfl
  | error x => rfl

theorem recover_config {now : UInt64} {r : Reopen} {w w' : Worker.State}
    (recovered : recoverResume now r w = .ok w') : w'.config = w.config := by
  cases recover_ok recovered with
  | stops _ after | fails _ after => rw [after]
  | reopens _ _ _ _ after => rw [after]

theorem step_config (w : Worker.State) (l : Label) : (Worker.step w l).config = w.config := by
  cases l with
  | signal => rfl
  | turn | drained | unchanged | interrupted | broken =>
    simp only [Worker.step]
    split <;> rfl
  | control m =>
    refine settle_config fun w' taken => ?_
    rcases control_ok taken with rfl | ⟨code, rfl⟩ | ⟨_, rfl⟩ | ⟨_, _, changed⟩ | ⟨_, _, rfl⟩
    · rfl
    · rfl
    · rfl
    · rcases setBitrate_ok changed with ⟨_, _, _, _, rfl⟩ | ⟨_, rfl⟩ <;> rfl
    · rfl
  | reopen now r =>
    simp only [Worker.step]
    split
    · exact settle_config fun w' => recover_config
    · rfl
  | fault clock now r =>
    simp only [Worker.step]
    split
    · exact settle_config fun w' recovered => (recover_config recovered).trans (testIdr_same clock w).1
    · rfl
  | changed clock after now r =>
    simp only [Worker.step]
    split
    · refine settle_config fun w' recovered => ?_
      exact (recover_config recovered : _ = ({ w with lastCheck := after } : Worker.State).config)
    · rfl
  | frame clock dequeueUs out =>
    simp only [Worker.step]
    split
    · refine settle_config fun w' sent => ?_
      obtain ⟨_, _, _, done⟩ := encodeSend_ok sent
      rw [done]
      exact (testIdr_same clock w).1
    · rfl

theorem told_append {rate : UInt32} {log : List Event}
    (told : ∀ before bps after, log = before ++ .encoded bps :: after → bps = rated rate before)
    {e : Event} (now : ∀ bps, e = .encoded bps → bps = rated rate log) :
    ∀ before bps after, log ++ [e] = before ++ .encoded bps :: after → bps = rated rate before := by
  intro before bps after same
  rcases Log.concat_split same with ⟨rfl, last, _⟩ | ⟨after', front, _⟩
  · exact now bps last.symm
  · exact told before bps after' front

theorem resumed_pending {w w' : Worker.State} (config : w'.config.bitrate = w.config.bitrate)
    (pending : w'.pendingBitrate = w.pendingBitrate) : resumedRate w' = resumedRate w := by
  rw [resumedRate, resumedRate, config, pending]

theorem inv_resumed {rate : UInt32} {s : State} (inv : Inv rate s) :
    resumedRate s.worker = rated rate (s.log ++ [.reopened]) := by
  cases running : rateOf s.worker with
  | none => exact inv.waiting running
  | some bps =>
    obtain ⟨_, pending, spent⟩ := inv.running bps running
    rw [rated_reopened rate spent, resumedRate, pending, if_neg (not_not.mpr rfl), inv.config]

theorem inv_step {rate : UInt32} (s : State) (l : Label) (inv : Inv rate s) :
    Inv rate (step s l) := by
  have rates := step_rates s.worker l
  have config : (Worker.step s.worker l).config.bitrate = rate := by
    rw [step_config]
    exact inv.config
  have known := config.trans inv.config.symm
  rw [step]
  generalize Worker.step s.worker l = w at rates config known ⊢
  generalize event s.worker l = happened at rates ⊢
  cases rates with
  | same encoder pending =>
    rw [Option.toList_none, List.append_nil]
    refine ⟨config, inv.spare, ?_, ?_, inv.told⟩
    · intro bps running
      obtain ⟨told, none, spent⟩ := inv.running bps (encoder ▸ running)
      exact ⟨told, pending.trans none, spent⟩
    · intro none
      exact (resumed_pending known pending).trans (inv.waiting (encoder ▸ none))
  | encodes bps was encoder pending =>
    obtain ⟨told, none, spent⟩ := inv.running bps was
    refine ⟨config, ?_, ?_, ?_, told_append inv.told fun bps' same => ?_⟩
    · exact (book_concat s.log _).symm ▸ inv.spare
    · intro bps' running
      obtain rfl : bps' = bps := Option.some.inj (running.symm.trans (encoder.trans was))
      exact ⟨told.trans (rated_encoded rate _ _).symm, pending.trans none,
        (book_concat s.log _).symm ▸ spent⟩
    · intro none
      rw [encoder, was] at none
      cases none
    · cases same
      exact told
  | live bps encoder pending =>
    have spent : (book (s.log ++ [.accepted true bps])).spare = 0 := by
      rw [book_concat]
      rfl
    refine ⟨config, Nat.le_trans (Nat.le_of_eq spent) (Nat.zero_le 1), ?_, ?_,
      told_append inv.told nofun⟩
    · intro bps' running
      obtain rfl : bps' = bps := Option.some.inj (running.symm.trans encoder)
      exact ⟨(rated_accepted rate true _ _).symm, pending, spent⟩
    · intro none
      rw [encoder] at none
      cases none
  | down bps was encoder pending =>
    refine ⟨config, ?_, ?_, ?_, told_append inv.told nofun⟩
    · simp only [Option.toList_some, book_concat, Book.note]
      split
      · exact Nat.zero_le 1
      · exact Nat.le_refl 1
    · intro bps' running
      rw [encoder] at running
      cases running
    · intro none
      rw [Option.toList_some, rated_applied, resumedRate, pending, config]
  | closes encoder pending =>
    rw [Option.toList_none, List.append_nil]
    refine ⟨config, inv.spare, ?_, ?_, inv.told⟩
    · intro bps running
      rw [encoder] at running
      cases running
    · intro none
      exact (resumed_pending known pending).trans (inv_resumed inv)
  | reopens encoder pending =>
    have spent := spare_reopened inv.spare
    refine ⟨config, Nat.le_trans (Nat.le_of_eq spent) (Nat.zero_le 1), ?_, ?_,
      told_append inv.told nofun⟩
    · intro bps running
      obtain rfl : bps = resumedRate s.worker := Option.some.inj (running.symm.trans encoder)
      exact ⟨inv_resumed inv, pending, spent⟩
    · intro none
      rw [encoder] at none
      cases none

theorem inv_start (config : Config) (idrAt : UInt32) (direct fullRange : Bool) (clock : UInt64) :
    Inv config.bitrate (start (begin config idrAt direct fullRange clock)) := by
  have nothing (before : List Event) (bps : UInt32) (after : List Event)
      (same : [] = before ++ .encoded bps :: after) : bps = rated config.bitrate before :=
    absurd same.symm (by simp)
  rw [start, begin]
  split
  next e opened =>
    refine ⟨rfl, Nat.zero_le 1, ?_, nofun, nothing⟩
    intro bps running
    rw [rateOf, Option.map_some, openEncoder_ok opened] at running
    exact ⟨(Option.some.inj running).symm, rfl, rfl⟩
  next => exact ⟨rfl, Nat.zero_le 1, nofun, fun _ => rfl, nothing⟩

/-- Every frame has the rate accepted last, exactly in the runs that lose no accepted rate before
a frame. -/
theorem rates_kept_iff (config : Config) (idrAt : UInt32) (direct fullRange : Bool) (clock : UInt64)
    (ls : List Label) :
    let log := (run step (start (begin config idrAt direct fullRange clock)) ls).log
    Kept config.bitrate log ↔ ¬ Forgets config.bitrate log := by
  intro log
  have inv : Inv config.bitrate (run step (start (begin config idrAt direct fullRange clock)) ls) :=
    run_invariant step _ inv_step (inv_start config idrAt direct fullRange clock) ls
  constructor
  · rintro kept ⟨before, bps, after, same, lost, other⟩
    have told := inv.told before bps after same
    rw [rated, if_pos lost] at told
    exact other ((kept before bps after same).symm.trans told)
  · intro fine before bps after same
    have told := inv.told before bps after same
    rw [rated] at told
    by_cases lost : (book before).lost
    · rw [if_pos lost] at told
      by_contra other
      exact fine ⟨before, bps, after, same, lost, fun target => other (told.trans target.symm)⟩
    · rwa [if_neg lost] at told

def faultedRun : List Label :=
  [.turn, .control { h := { kind := .bitrate, extra := 5000000 } }, .drained, .frame 0 0 idrUnit,
   .control { h := { kind := .ack, seq := 1 } }, .unchanged 0 0, .turn, .drained,
   .fault 0 1 (.opened true true), .turn, .drained, .frame 2 0 idrUnit]

theorem fault_forgets_rate :
    ¬ ∀ (config : Config) (idrAt : UInt32) (direct fullRange : Bool) (clock : UInt64)
        (ls : List Label),
      Kept config.bitrate (run step (start (begin config idrAt direct fullRange clock)) ls).log := by
  intro always
  have kept := always { codec := .h264 } 0 true true 0 faultedRun
  have log : (run step (start (begin { codec := .h264 } 0 true true 0)) faultedRun).log =
      [.accepted true 5000000, .encoded 5000000, .reopened] ++ .encoded 20000000 :: [] := by
    decide +kernel
  exact absurd (kept _ _ _ log) (by decide)

end Video.Rate

import RkmoonKvm.Hid.Server

/-! `Server.close`: which leases are released once it has returned. A handler that
is cancelled in its `finally` never gets to its release. -/
namespace Hid.Server
open Await Runs

/-- Calls that the leases make after `close` are acknowledged. -/
def Succeeds (s : State) : Label → Prop
  | .conn i (.answer false) => (s.conns i).fresh = false
  | _ => True

instance (s : State) (l : Label) : Decidable (Succeeds s l) := by
  unfold Succeeds
  split <;> infer_instance

/-- When `close` cancels the handlers, none is in its `finally` with a key or button tracked. -/
def Spared (s : State) : Label → Prop
  | .serverClosed => s.closing = .waiting →
      ∀ i ∈ s.handlers, (s.conns i).phase.leaving → (s.conns i).neutral
  | _ => True

instance (c : Conn) : Decidable c.neutral := by
  unfold Conn.neutral
  infer_instance

instance (s : State) (l : Label) : Decidable (Spared s l) := by
  cases l <;> simp only [Spared] <;> infer_instance

/-! A release whose calls are all acknowledged. -/

theorem releaseKeys_answered {P : Except PyError Unit → Lease → Prop} (ks : List Key) (l : Lease)
    (h : P (.ok ()) { l with possiblyDown := l.possiblyDown \ ks.toFinset }) :
    Answered P (Lease.releaseKeys ks l) := by
  induction ks generalizing l with
  | nil =>
    simp only [List.toFinset_nil, Finset.sdiff_empty] at h
    exact h
  | cons k ks ih =>
    intro _
    apply ih
    have same : (l.possiblyDown.erase k) \ ks.toFinset = l.possiblyDown \ (k :: ks).toFinset := by
      ext x
      simp
      tauto
    rw [same]
    exact h

theorem releaseButtons_answered {P : Except PyError Unit → Lease → Prop} (bs : List Button)
    (l : Lease) (h : P (.ok ()) { l with buttons := l.buttons \ bs.toFinset }) :
    Answered P (Lease.releaseButtons bs l) := by
  induction bs generalizing l with
  | nil =>
    simp only [List.toFinset_nil, Finset.sdiff_empty] at h
    exact h
  | cons b bs ih =>
    intro _
    apply ih
    have same : (l.buttons.erase b) \ bs.toFinset = l.buttons \ (b :: bs).toFinset := by
      ext x
      simp
      tauto
    rw [same]
    exact h

theorem release_answered {ks : List Key} {bs : List Button} {l : Lease} (listed : l.listed ks bs) :
    Answered (fun _ l => l.neutral) (Lease.release ks bs l) := by
  simp only [Lease.listed, decide_eq_true_eq] at listed
  refine answered_bind (p := Lease.releaseKeys ks l.forgetAliases) ?_
  apply releaseKeys_answered
  refine answered_bind (p := Lease.releaseButtons bs _) ?_
  apply releaseButtons_answered
  change Lease.neutral _ = true
  simp [Lease.neutral, Lease.forgetAliases, listed]

structure Calm (stopping : Bool) (c : Conn) : Prop where
  flagged : c.cancelled → c.active
  spared : c.cancelled → c.phase.leaving → c.neutral
  place : c.neutral ∨ c.active ∨ c.phase.retrying
  final : ∀ rest, c.phase = .retryFinal rest →
    stopping ∧ c.fresh ∧ Answered (fun _ l => l.neutral) rest

def Doomed (c : Conn) : Prop :=
  ¬ c.neutral ∧ (c.cancelled ∧ c.phase.leaving ∨ c.phase = .aborted)

theorem body_apart {p : Phase} (body : p.body) : p.leaving = false ∧ p.retrying = false := by
  cases p <;> simp_all [Phase.body, Phase.leaving, Phase.retrying]

theorem leaving_apart {p : Phase} (leaving : p.leaving) : p.body = false ∧ p.retrying = false := by
  cases p <;> simp_all [Phase.body, Phase.leaving, Phase.retrying]

theorem retrying_apart {p : Phase} (retrying : p.retrying) : p.body = false ∧ p.leaving = false := by
  cases p <;> simp_all [Phase.body, Phase.leaving, Phase.retrying]

section
variable {f : Flags} {a : Act} {c c' : Conn} {e : Effect}

theorem interrupted_leaving (sound : Sound c) (leaving : c.phase.leaving) :
    c.interrupted = c.lease := by
  unfold Conn.interrupted
  split
  · rename_i serving
    simp [serving, Phase.leaving] at leaving
  · rename_i op l k releasing
    obtain ⟨lease, answers⟩ := sound.rest _ (by rw [releasing]; rfl)
    rw [answers.uncaught.1, lease]
    rfl
  · rfl

theorem doomed_turn (sound : Sound c) (doomed : Doomed c) (turn : Turn f a c c' e) : Doomed c' := by
  obtain ⟨loose, cancelled | aborted⟩ := doomed
  · obtain ⟨flagged, leaving⟩ := cancelled
    have same := interrupted_leaving sound leaving
    cases turn with
    | stay => exact ⟨loose, .inl ⟨flagged, leaving⟩⟩
    | abort _ _ => exact ⟨by simpa [Conn.neutral, same] using loose, .inr rfl⟩
    | refuse here => simp [here, Phase.leaving] at leaving
    | claim here => simp [here, Phase.leaving] at leaving
    | serve _ _ here => simp [here, Phase.leaving] at leaving
    | finish _ _ _ _ here _ _ => simp [here, Phase.leaving] at leaving
    | proceed _ _ _ live => simp [flagged] at live
    | grant _ _ _ _ live => simp [flagged] at live
    | depart _ _ live => simp [flagged] at live
    | vacate _ live => simp [flagged] at live
    | give _ live => simp [flagged] at live
    | release _ _ live => simp [flagged] at live
    | leave _ here _ => simp [(body_apart here).1] at leaving
    | unflag _ there => simp [leaving] at there
    | pause here => simp [(retrying_apart here).2] at leaving
    | retry _ here _ => simp [(retrying_apart here).2] at leaving
    | final _ _ _ here _ _ => simp [(retrying_apart here).2] at leaving
  · cases turn <;> simp_all [Doomed, Phase.body, Phase.leaving, Phase.retrying, Conn.neutral]

theorem calm_live {stopping : Bool} {c : Conn} (live : c.cancelled = false)
    (place : c.neutral ∨ c.active ∨ c.phase.retrying)
    (final : ∀ rest, c.phase = .retryFinal rest →
      stopping ∧ c.fresh ∧ Answered (fun _ l => l.neutral) rest) : Calm stopping c :=
  ⟨fun on => by simp [live] at on, fun on => by simp [live] at on, place, final⟩

theorem calm_settleAs {stopping : Bool} {waiting : Work Bool → Phase} {unfinished : Effect}
    {raised : Phase} (live : c.cancelled = false) {rest : Work Bool} (answers : Answers rest)
    (waits : ∀ p, (waiting p).leaving ∨ waiting p = .retryReleasing p) :
    Calm stopping (c.settleAs f waiting unfinished raised rest).1 := by
  unfold Conn.settleAs
  match rest, answers with
  | .done (.ok true) l, answers =>
    have neutral := answers.ends true rfl
    exact calm_live live (.inl (by simpa [Conn.neutral, Prog.object] using neutral)) (by simp)
  | .done (.ok false) l, answers => exact calm_live live (.inr (.inr rfl)) (by simp)
  | .done (.error e) l, answers => cases answers.settles
  | .wait op l k, answers =>
    rcases waits (.wait op l k) with leaving | retrying
    · refine calm_live live (.inr (.inl ?_)) fun rest same => ?_
      · simp only [Conn.active, leaving, Bool.or_true]
      · simp only at same
        simp [same, Phase.leaving] at leaving
    · refine calm_live live (.inr (.inr ?_)) fun rest same => ?_
      · simp only [retrying]
        rfl
      · simp [retrying] at same

theorem calm_settleFinal (live : c.cancelled = false) (stopping : f.stopping) {rest : Work Bool}
    (answered : Answered (fun _ l => l.neutral) rest) :
    Calm f.stopping (c.settleFinal f rest) := by
  unfold Conn.settleFinal
  match rest, answered with
  | .done r l, answered =>
    have neutral : l.neutral := answered
    exact calm_live live (.inl (by simpa [Conn.neutral, Prog.object] using neutral)) (by simp)
  | .wait op l k, answered =>
    refine calm_live live (.inr (.inr rfl)) fun rest same => ?_
    cases same
    exact ⟨stopping, stopping, answered⟩

theorem calm_turn (sound : Sound c) (calm : Calm f.stopping c)
    (succeeds : a = .answer false → c.fresh = false) (turn : Turn f a c c' e) :
    Calm f.stopping c' := by
  have idle (body : c.phase.body = false) (leaving : c.phase.leaving = false) :
      c.cancelled = false := by
    cases on : c.cancelled with
    | false => rfl
    | true =>
      have active := calm.flagged on
      simp [Conn.active, body, leaving] at active
  cases turn with
  | stay => exact calm
  | refuse here =>
    have live := idle (by rw [here]; rfl) (by rw [here]; rfl)
    exact calm_live live (.inr (.inl rfl)) (by simp)
  | claim here _ _ =>
    have live := idle (by rw [here]; rfl) (by rw [here]; rfl)
    exact calm_live live (.inr (.inl rfl)) (by simp)
  | proceed p _ _ live next _ =>
    refine calm_live live (.inr (.inl (by simp [Conn.active, next]))) fun rest same => ?_
    simp only at same
    simp [same, Phase.body] at next
  | grant mode stream _ _ live => exact calm_live live (.inr (.inl rfl)) (by simp [Conn.grant])
  | serve old work here =>
    refine ⟨fun _ => rfl, fun _ leaving => ?_, .inr (.inl rfl), by simp [Conn.serve]⟩
    simp [Conn.serve, Phase.leaving] at leaving
  | leave flag _ off => exact calm_live off (.inr (.inl rfl)) (by simp)
  | depart p _ live next plain =>
    refine calm_live live (.inr (.inl (by simp [Conn.active, next]))) fun rest same => ?_
    simp only at same
    simp [same, Phase.leaving] at next
  | abort here flagged =>
    have neutral := calm.spared flagged here
    have same := interrupted_leaving sound here
    exact calm_live rfl (.inl (by simpa [Conn.neutral, same] using neutral)) (by simp)
  | unflag body leaving =>
    have place : c.neutral ∨ c.phase.retrying := by
      have place := calm.place
      simpa [Conn.active, body, leaving] using place
    exact calm_live rfl (place.imp_right .inr) calm.final
  | vacate _ live owns =>
    have lease := sound.unowned owns
    exact calm_live live (.inl (by simp [Conn.neutral, lease])) (by simp)
  | give _ live _ lease => exact calm_live live (.inl (by simp [Conn.neutral, lease])) (by simp)
  | release rest _ live _ answers => exact calm_settleAs live answers fun _ => .inl rfl
  | pause here =>
    obtain ⟨body, leaving⟩ := retrying_apart here
    exact calm_live (idle body leaving) (.inr (.inr rfl)) (by simp)
  | retry rest here answers =>
    obtain ⟨body, leaving⟩ := retrying_apart here
    exact calm_settleAs (idle body leaving) answers fun _ => .inr rfl
  | final ks bs l here stopping listed =>
    obtain ⟨body, leaving⟩ := retrying_apart here
    exact calm_settleFinal (idle body leaving) stopping (release_answered listed)
  | finish op l k acked here answered _ =>
    obtain ⟨stopping, fresh, rest⟩ := calm.final _ here
    have live := idle (by rw [here]; rfl) (by rw [here]; rfl)
    cases acked with
    | true => exact calm_settleFinal live stopping (rest ())
    | false => simp [succeeds answered] at fresh

structure Drifts (f : Flags) (c c' : Conn) (e : Effect) : Prop where
  active : c'.active → c.active ∨ e = .enters ∨ e = .claims
  discards : e = .leaves ∨ e = .frees ∨ e = .retries → c'.active = false
  owned : c'.active → c'.owns → c.active ∧ c.owns ∨ e = .claims
  retrying : c'.phase.retrying → c.phase.retrying ∨ e = .retries
  retries : e = .retries → c.active ∧ c.owns
  claims : e = .claims → f.stopping = false

theorem drifts_turn (sound : Sound c) (turn : Turn f a c c' e) : Drifts f c c' e := by
  cases turn with
  | refuse here =>
    have owns := sound.absent here
    constructor <;> simp_all [Conn.active, Phase.retrying]
  | proceed p here _ _ next _ =>
    have apart := body_apart next
    constructor <;> simp_all [Conn.active]
  | grant _ _ here _ _ =>
    constructor <;> simp_all [Conn.active, Conn.grant, Phase.body, Phase.retrying]
  | serve _ _ here =>
    constructor <;> simp_all [Conn.active, Conn.serve, Phase.body, Phase.retrying]
  | depart p here _ next _ =>
    have apart := leaving_apart next
    constructor <;> simp_all [Conn.active]
  | release rest here live owns answers =>
    unfold Conn.settle Conn.settleAs
    split <;> constructor <;> simp_all [Conn.active, Phase.body, Phase.leaving, Phase.retrying]
  | retry rest here answers =>
    unfold Conn.settleRetry Conn.settleAs
    split <;> constructor <;> simp_all [Conn.active, Phase.body, Phase.leaving, Phase.retrying]
  | final ks bs l here stopping listed =>
    unfold Conn.settleFinal
    split <;> constructor <;> simp_all [Conn.active, Phase.body, Phase.leaving, Phase.retrying]
  | finish op l k acked here answered _ =>
    unfold Conn.settleFinal
    split <;> constructor <;> simp_all [Conn.active, Phase.body, Phase.leaving, Phase.retrying]
  | _ => constructor <;> simp_all [Conn.active, Phase.body, Phase.leaving, Phase.retrying]

end

/-- The progress of `close` bounds where a lease can still be. -/
def Stage (s : State) : Prop :=
  match s.closing with
  | .up | .waiting => True
  | .gathering hs => ∀ i, (s.conns i).active → (s.conns i).owns → i ∈ hs
  | .awaiting r => ∀ i, ((s.conns i).active → (s.conns i).owns = false) ∧
      ((s.conns i).phase.retrying → r = .retry i)
  | .returned => ∀ i, ((s.conns i).active → (s.conns i).owns = false) ∧
      (s.conns i).phase.retrying = false

structure Shut (s : State) : Prop where
  inv : Inv s
  calm : ∀ i, Calm s.stopping (s.conns i)
  registered : ∀ i, (s.conns i).active → i ∈ s.handlers
  recovery : ∀ i, (s.conns i).phase.retrying → s.recovery = some (.retry i)
  stopped : s.closing ≠ .up → s.stopping
  stage : Stage s

theorem effect_stopping (i : Nat) (s : State) (e : Effect) :
    (s.effect i e).stopping = s.stopping := by
  cases e <;> rfl

theorem effect_closing (i : Nat) (s : State) (e : Effect) :
    (s.effect i e).closing = s.closing := by
  cases e <;> rfl

theorem effect_handlers {i j : Nat} {s : State} {e : Effect} (member : j ∈ s.handlers)
    (kept : j ≠ i ∨ ¬ (e = .leaves ∨ e = .frees ∨ e = .retries)) :
    j ∈ (s.effect i e).handlers := by
  cases e with
  | none => exact member
  | enters => exact List.mem_cons_of_mem _ member
  | claims => exact List.mem_cons_of_mem _ member
  | leaves => exact (List.mem_erase_of_ne (kept.resolve_right (by simp))).mpr member
  | frees => exact (List.mem_erase_of_ne (kept.resolve_right (by simp))).mpr member
  | retries => exact (List.mem_erase_of_ne (kept.resolve_right (by simp))).mpr member

theorem effect_recovery (i : Nat) (s : State) (e : Effect) :
    (s.effect i e).recovery = if e = .retries then some (.retry i) else s.recovery := by
  cases e <;> rfl

/-- A retry is never pending while another handler still has a lease to release. -/
theorem alone_retrying {s : State} (inv : Inv s) {i j : Nat} (owns : (s.conns i).owns)
    (active : (s.conns i).active) (retrying : (s.conns j).phase.retrying) : j = i := by
  obtain ⟨owner, running⟩ := retrying_owner retrying
  have held := holds_of_owner (inv.sound j) owner running
  have holding : (s.conns i).holds := by
    unfold Conn.holds
    split
    · rename_i finished
      simp [Conn.active, finished, Phase.body, Phase.leaving] at active
    · simp [owns]
  exact inv.unique j i held holding

theorem late_turn {f : Flags} {c c' : Conn} {e : Effect} (drifts : Drifts f c c' e)
    (unclaimed : e ≠ .claims) (idle : c.active → c.owns = false) {P : Prop}
    (retried : c.phase.retrying → P) :
    (c'.active → c'.owns = false) ∧ (c'.phase.retrying → P) := by
  have gone (active : c.active) (owns : c.owns) : False := by simp [idle active] at owns
  constructor
  · intro active
    cases owns : c'.owns with
    | false => rfl
    | true =>
      have old := (drifts.owned active owns).resolve_right unclaimed
      exact (gone old.1 old.2).elim
  · intro retrying
    rcases drifts.retrying retrying with old | begun
    · exact retried old
    · exact (gone (drifts.retries begun).1 (drifts.retries begun).2).elim

section conn
variable {s : State} {i : Nat} {c : Conn} {e : Effect}

theorem registered_conn (shut : Shut s) (drifts : Drifts s.flags (s.conns i) c e) (j : Nat)
    (active : (Function.update s.conns i c j).active) :
    j ∈ (State.effect i { s with conns := Function.update s.conns i c } e).handlers := by
  revert active j
  apply (Function.forall_update_iff s.conns fun j c => c.active → j ∈ State.handlers _).mpr
  constructor
  · intro active
    rcases drifts.active active with old | entered | claimed
    · refine effect_handlers (shut.registered i old) (.inr fun gone => ?_)
      simp [drifts.discards gone] at active
    · simp [entered, State.effect]
    · simp [claimed, State.effect]
  · exact fun j other active => effect_handlers (shut.registered j active) (.inl other)

theorem recovery_conn (shut : Shut s) (drifts : Drifts s.flags (s.conns i) c e) (j : Nat)
    (retrying : (Function.update s.conns i c j).phase.retrying) :
    (State.effect i { s with conns := Function.update s.conns i c } e).recovery = some (.retry j) := by
  rw [effect_recovery]
  revert retrying j
  apply (Function.forall_update_iff s.conns fun j c => c.phase.retrying → _ = some (Recovery.retry j)).mpr
  constructor
  · intro retrying
    rcases drifts.retrying retrying with old | begun
    · split
      · rfl
      · exact shut.recovery i old
    · rw [if_pos begun]
  · intro j other retrying
    rw [if_neg, shut.recovery j retrying]
    intro begun
    obtain ⟨active, owns⟩ := drifts.retries begun
    exact other (alone_retrying shut.inv owns active retrying)

theorem stage_conn (shut : Shut s) (drifts : Drifts s.flags (s.conns i) c e) :
    Stage (State.effect i { s with conns := Function.update s.conns i c } e) := by
  have stage := shut.stage
  have unclaimed (later : s.closing ≠ .up) : e ≠ .claims := by
    intro claimed
    have up := drifts.claims claimed
    have stopping := shut.stopped later
    simp only [State.flags] at up
    simp [up] at stopping
  unfold Stage at stage ⊢
  rw [effect_closing, effect_conns]
  cases closing : s.closing with
  | up => trivial
  | waiting => trivial
  | gathering hs =>
    simp only [closing] at stage ⊢
    refine (Function.forall_update_iff s.conns fun j c => c.active → c.owns → j ∈ hs).mpr
      ⟨fun active owns => ?_, fun j _ => stage j⟩
    have old := (drifts.owned active owns).resolve_right (unclaimed (by simp [closing]))
    exact stage i old.1 old.2
  | awaiting r =>
    simp only [closing] at stage ⊢
    refine (Function.forall_update_iff s.conns fun j c => (c.active → c.owns = false) ∧
      (c.phase.retrying → r = .retry j)).mpr ⟨?_, fun j _ => stage j⟩
    obtain ⟨idle, retried⟩ := stage i
    exact late_turn drifts (unclaimed (by simp [closing])) idle retried
  | returned =>
    simp only [closing] at stage ⊢
    refine (Function.forall_update_iff s.conns fun _ c => (c.active → c.owns = false) ∧
      c.phase.retrying = false).mpr ⟨?_, fun j _ => stage j⟩
    obtain ⟨idle, none⟩ := stage i
    have late := late_turn (P := False) drifts (unclaimed (by simp [closing])) idle (by simp [none])
    exact ⟨late.1, by simpa using late.2⟩

end conn

theorem shut_conn {s : State} (shut : Shut s) (listening : s.listening) (i : Nat) (a : Act)
    (succeeds : a = .answer false → (s.conns i).fresh = false) : Shut (s.connAct i a) := by
  have turn := act_turn (f := s.flags) (shut.inv.sound i) a
  have drifts := drifts_turn (shut.inv.sound i) turn
  have calm := calm_turn (shut.inv.sound i) (shut.calm i) succeeds turn
  have inv := inv_conn shut.inv listening i a
  unfold State.connAct at inv ⊢
  generalize (s.conns i).act s.flags a = r at drifts calm inv
  obtain ⟨c, e⟩ := r
  constructor
  · exact inv
  · rw [effect_stopping, effect_conns]
    exact (Function.forall_update_iff s.conns fun _ c => Calm s.stopping c).mpr ⟨calm, fun j _ => shut.calm j⟩
  · rw [effect_conns]
    exact registered_conn shut drifts
  · rw [effect_conns]
    exact recovery_conn shut drifts
  · rw [effect_closing, effect_stopping]
    exact shut.stopped
  · exact stage_conn shut drifts

theorem shut_serverClosed {s : State} (shut : Shut s) (waiting : s.closing = .waiting)
    (spared : ∀ i ∈ s.handlers, (s.conns i).phase.leaving → (s.conns i).neutral) :
    Shut { s.cancelAll s.handlers with closing := .gathering s.handlers } where
  inv := { inv_cancelAll shut.inv s.handlers with }
  calm i := by
    have calm := shut.calm i
    simp only [State.cancelAll]
    split
    · rename_i here
      exact ⟨fun _ => here.2, fun _ => spared i here.1, calm.place, calm.final⟩
    · exact calm
  registered i := by
    simp only [State.cancelAll]
    split <;> exact shut.registered i
  recovery i := by
    simp only [State.cancelAll]
    split <;> exact shut.recovery i
  stopped _ := shut.stopped (by simp [waiting])
  stage := by
    intro i
    simp only [State.cancelAll]
    split <;> exact fun active _ => shut.registered i active

theorem shut_gathered {s : State} (shut : Shut s) : Shut (step s .gathered) := by
  have stage := shut.stage
  simp only [step]
  split
  · rename_i hs gathering
    have stopping := shut.stopped (by simp [gathering])
    simp only [Stage, gathering] at stage
    split
    · rename_i ended
      have idle (i : Nat) (active : (s.conns i).active) : (s.conns i).owns = false := by
        cases owns : (s.conns i).owns with
        | false => rfl
        | true =>
          have gone := List.all_eq_true.mp ended i (stage i active owns)
          simp [active] at gone
      split
      · rename_i none
        refine ⟨{ shut.inv with }, shut.calm, shut.registered, shut.recovery, fun _ => stopping, ?_⟩
        intro i
        refine ⟨idle i, ?_⟩
        cases retrying : (s.conns i).phase.retrying with
        | false => rfl
        | true => simpa [none] using shut.recovery i retrying
      · rename_i r pending
        refine ⟨{ shut.inv with }, shut.calm, shut.registered, shut.recovery, fun _ => stopping, ?_⟩
        intro i
        refine ⟨idle i, fun retrying => ?_⟩
        exact Option.some.inj (pending.symm.trans (shut.recovery i retrying))
    · exact shut
  · exact shut

theorem shut_recovered {s : State} (shut : Shut s) : Shut (step s .recovered) := by
  have stage := shut.stage
  simp only [step]
  split
  · rename_i r awaiting
    have stopping := shut.stopped (by simp [awaiting])
    simp only [Stage, awaiting] at stage
    split
    · rename_i ended
      refine ⟨{ shut.inv with }, shut.calm, shut.registered, shut.recovery, fun _ => stopping, ?_⟩
      intro i
      refine ⟨(stage i).1, ?_⟩
      cases retrying : (s.conns i).phase.retrying with
      | false => rfl
      | true =>
        rw [(stage i).2 retrying] at ended
        simp [State.ended, retrying] at ended
    · exact shut
  · exact shut

theorem shut_step (s : State) (l : Label) (shut : Shut s) (fine : Succeeds s l ∧ Spared s l) :
    Shut (step s l) := by
  have inv := inv_step s l shut.inv
  cases l with
  | conn i a =>
    simp only [step]
    split
    · rename_i listening
      refine shut_conn shut listening i a fun refused => ?_
      subst refused
      exact fine.1
    · exact shut
  | serverClosed =>
    simp only [step]
    split
    · rename_i waiting
      exact shut_serverClosed shut waiting (fine.2 waiting)
    · exact shut
  | gathered => exact shut_gathered shut
  | recovered => exact shut_recovered shut
  | close =>
    simp only [step] at inv ⊢
    split
    · rename_i now
      rw [if_pos now] at inv
      refine ⟨inv, fun i => ?_, shut.registered, shut.recovery, fun _ => rfl, trivial⟩
      have calm := shut.calm i
      exact ⟨calm.flagged, calm.spared, calm.place, fun rest here => ⟨rfl, (calm.final rest here).2⟩⟩
    · exact shut
  | blockUntilNeutral =>
    simp only [step] at inv ⊢
    split
    · rename_i now
      rw [if_pos now] at inv
      refine ⟨inv, shut.calm, shut.registered, fun i retrying => ?_, shut.stopped, shut.stage⟩
      obtain ⟨owner, running⟩ := retrying_owner retrying
      have held := holds_of_owner (shut.inv.sound i) owner running
      simp [shut.inv.quiet now.1 i] at held
    · exact shut
  | startupTurn | startupWake =>
    simp only [step] at inv ⊢
    split
    · rename_i now
      rw [if_pos now] at inv
      exact ⟨inv, shut.calm, shut.registered, shut.recovery, shut.stopped, shut.stage⟩
    · exact shut
  | attempt ok =>
    simp only [step] at inv ⊢
    split
    · rename_i now
      rw [if_pos now] at inv
      split
      · rename_i good
        rw [if_pos good] at inv
        exact ⟨inv, shut.calm, shut.registered, shut.recovery, shut.stopped, shut.stage⟩
      · rename_i bad
        rw [if_neg bad] at inv
        exact ⟨inv, shut.calm, shut.registered, shut.recovery, shut.stopped, shut.stage⟩
    · exact shut
  | listen => exact ⟨inv, shut.calm, shut.registered, shut.recovery, shut.stopped, shut.stage⟩

theorem shut_fresh (streams : Bool) : Shut (fresh streams) where
  inv := inv_fresh streams
  calm _ := calm_live rfl (.inl (by simp [fresh, Conn.neutral])) (by simp [fresh])
  registered _ active := by cases active
  recovery _ retrying := by cases retrying
  stopped up := absurd rfl up
  stage := trivial

theorem returned_neutral {s : State} (shut : Shut s) (returned : s.closing = .returned) (i : Nat) :
    (s.conns i).neutral := by
  have stage := shut.stage
  simp only [Stage, returned] at stage
  rcases (shut.calm i).place with neutral | active | retrying
  · exact neutral
  · have lease := (shut.inv.sound i).unowned ((stage i).1 active)
    simp [Conn.neutral, lease]
  · simp [(stage i).2] at retrying

theorem doomed_step {s : State} (inv : Inv s) (l : Label) {i : Nat} (doomed : Doomed (s.conns i)) :
    Doomed ((step s l).conns i) := by
  rcases step_conns s l with ⟨j, a, rfl⟩ | rfl | same
  · simp only [step]
    split
    · simp only [State.connAct, effect_conns, Function.update_apply]
      split
      · rename_i same
        subst same
        exact doomed_turn (inv.sound i) doomed (act_turn (inv.sound i) a)
      · exact doomed
    · exact doomed
  · simp only [step, State.cancelAll]
    split
    · simp only
      split
      · exact ⟨doomed.1, doomed.2.imp_left fun there => ⟨rfl, there.2⟩⟩
      · exact doomed
    · exact doomed
  · rwa [same]

/-- A handler that is cancelled in its `finally` loses what it still tracks. -/
theorem doomed_serverClosed {s : State} (waiting : s.closing = .waiting) {i : Nat}
    (member : i ∈ s.handlers) (leaving : (s.conns i).phase.leaving)
    (loose : ¬ (s.conns i).neutral) : Doomed ((step s .serverClosed).conns i) := by
  have active : (s.conns i).active := by simp [Conn.active, leaving]
  simp only [step, State.cancelAll, if_pos waiting, if_pos (And.intro member active)]
  exact ⟨loose, .inl ⟨rfl, leaving⟩⟩

theorem doomed_run {s : State} (inv : Inv s) (ls : List Label) {i : Nat}
    (doomed : Doomed (s.conns i)) : Doomed ((run step s ls).conns i) := by
  have both := run_invariant step (fun s => Inv s ∧ Doomed (s.conns i))
    (fun s l h => ⟨inv_step s l h.1, doomed_step h.1 l h.2⟩) ⟨inv, doomed⟩ ls
  exact both.2

theorem lost_run {s : State} (inv : Inv s) (ls : List Label) (lost : ¬ Meets step Spared s ls) :
    ∃ i, Doomed ((run step s ls).conns i) := by
  induction ls generalizing s with
  | nil => exact absurd trivial lost
  | cons l ls ih =>
    by_cases spared : Spared s l
    · exact ih (inv_step s l inv) fun rest => lost ⟨spared, rest⟩
    · cases l with
      | serverClosed =>
        simp only [Spared, Classical.not_imp, not_forall] at spared
        obtain ⟨waiting, i, member, leaving, loose⟩ := spared
        have doomed := doomed_serverClosed waiting member leaving loose
        exact ⟨i, doomed_run (inv_step s _ inv) ls doomed⟩
      | _ => exact absurd trivial spared

/-- With every call made after `close` acknowledged, `close` returns with every lease
released exactly when it cancelled no handler in its `finally` with something tracked. -/
theorem close_releases_iff (streams : Bool) (ls : List Label)
    (succeeds : Meets step Succeeds (fresh streams) ls)
    (returned : (run step (fresh streams) ls).closing = .returned) :
    (∀ i, ((run step (fresh streams) ls).conns i).neutral) ↔
      Meets step Spared (fresh streams) ls := by
  constructor
  · intro released
    by_contra lost
    obtain ⟨i, loose, -⟩ := lost_run (inv_fresh streams) ls lost
    exact loose (released i)
  · intro spared
    have shut := meets_invariant step _ Shut shut_step (shut_fresh streams) ls
      (meets_and succeeds spared)
    exact returned_neutral shut returned

def helloLine : Line := .object [("op", .str "hello"), ("version", .int 1)]

def heldKey : List Label :=
  [.listen, .conn 0 (.start true), .conn 0 (.hello (some helloLine)), .conn 0 (.selected true),
   .conn 0 (.drained true), .conn 0 (.event (.key 0x41 true)), .conn 0 (.answer true)]

def closedRun : List Label :=
  heldKey ++ [.close, .serverClosed, .conn 0 .cancelled, .conn 0 .joined,
    .conn 0 (.closed [.key 0] []), .conn 0 (.answer true), .gathered]

theorem closedRun_released : ((run step (fresh false) closedRun).conns 0).neutral :=
  (close_releases_iff false closedRun (by decide) (by decide)).mpr (by decide) 0

/-- The client has just disconnected: its handler waits for the socket to close. -/
def disconnectedRun : List Label :=
  heldKey ++ [.conn 0 .ended, .conn 0 .joined, .close, .serverClosed, .conn 0 .cancelled, .gathered]

theorem teardown_cancelled_keeps_key :
    ¬ ∀ (streams : Bool) (ls : List Label), Meets step Succeeds (fresh streams) ls →
      (run step (fresh streams) ls).closing = .returned →
      ∀ i, ((run step (fresh streams) ls).conns i).neutral := by
  intro always
  have released := always false disconnectedRun (by decide) (by decide) 0
  exact absurd released (by decide)

end Hid.Server

import QueueWorkflows.Backend.Port

/-! What a step of a well-behaved backend may do to one job. A backend whose steps
all stay within this life cycle absorbs its terminal states, announces a job at
most once and hands it out once for every time it was put in the queue. -/

namespace QueueWorkflows.Backend

open Transaction (Reach)

variable {σ ι : Type}

/-- One step, seen from one job. An id is admitted when it is new, or when its job
is running and starts over. -/
inductive Life (port : Port σ ι) (state : σ) (step : ι) (jobId : String) : Prop
  | idle (same : port.standing (port.after state step) jobId = port.standing state jobId)
      (admits : port.admits state step jobId = false)
      (hands : port.hands state step jobId = false)
      (silent : port.outbox (port.after state step) jobId = port.outbox state jobId)
  | admitted (vacant : ∀ status result, port.standing state jobId = some (status, result) →
        status = .running)
      (queued : port.standing (port.after state step) jobId = some (.queued, none))
      (admits : port.admits state step jobId = true)
      (hands : port.hands state step jobId = false)
      (silent : port.outbox (port.after state step) jobId = port.outbox state jobId)
  | handed (result : Option Dict) (queued : port.standing state jobId = some (.queued, result))
      (running : port.standing (port.after state step) jobId = some (.running, result))
      (admits : port.admits state step jobId = false)
      (silent : port.outbox (port.after state step) jobId = port.outbox state jobId)
  | returned (result : Option Dict)
      (running : port.standing state jobId = some (.running, result))
      (queued : port.standing (port.after state step) jobId = some (.queued, result))
      (recovers : (port.op step).recovers = true)
      (admits : port.admits state step jobId = false)
      (hands : port.hands state step jobId = false)
      (silent : port.outbox (port.after state step) jobId = port.outbox state jobId)
  | settled (status final : Status) (before result : Option Dict)
      (live : port.standing state jobId = some (status, before)) (open_ : status.terminal = false)
      (ended : port.standing (port.after state step) jobId = some (final, result))
      (terminal : final.terminal = true)
      (admits : port.admits state step jobId = false)
      (hands : port.hands state step jobId = false)
      (once : (port.outbox (port.after state step) jobId).length ≤
        (port.outbox state jobId).length + 1)

/-- Every allowed step from a state of the invariant is within the life cycle of
every job, and keeps the invariant. -/
structure Lives (port : Port σ ι) (ok : σ → ι → Bool) (holds : σ → Prop) : Prop where
  keeps : ∀ {state step}, holds state → ok state step = true → holds (port.after state step)
  life : ∀ {state step}, holds state → ok state step = true →
    ∀ jobId, Life port state step jobId

variable {port : Port σ ι} {ok : σ → ι → Bool} {holds : σ → Prop} {state later first : σ}

theorem Port.status_eq (port : Port σ ι) (state : σ) (jobId : String) :
    port.status state jobId = (port.standing state jobId).map Prod.fst := by
  simp [Port.status, Port.standing, Option.map_map, Function.comp_def]

theorem Port.standing_eq_some {jobId : String} {status : Status} {result : Option Dict} :
    port.standing state jobId = some (status, result) ↔
      ∃ row, port.get state jobId = some row ∧ row.status = status ∧ row.result = result := by
  simp [Port.standing, Prod.ext_iff]

section Rows

variable {step : ι} {jobId : String}

/-- A step that does not touch the job. -/
theorem Life.untouched
    (same : port.get (port.after state step) jobId = port.get state jobId)
    (admits : port.admits state step jobId = false)
    (hands : port.hands state step jobId = false)
    (silent : port.outbox (port.after state step) jobId = port.outbox state jobId) :
    Life port state step jobId :=
  .idle (by rw [Port.standing, Port.standing, same]) admits hands silent

/-- A step that rewrites the job's row, if it selects it, without ending it: it
leaves the standing alone, or is one that takes a running job back. -/
theorem Life.rewritten {selects : Job → Bool} {change : Job → Job}
    (seen : port.get (port.after state step) jobId = (port.get state jobId).map fun row =>
      if selects row then change row else row)
    (turn : ∀ row, selects row = true → (change row).result = row.result ∧
      ((change row).status = row.status ∨ row.status = .running ∧
        (change row).status = .queued ∧ (port.op step).recovers = true))
    (admits : port.admits state step jobId = false)
    (hands : port.hands state step jobId = false)
    (silent : port.outbox (port.after state step) jobId = port.outbox state jobId) :
    Life port state step jobId := by
  cases found : port.get state jobId with
  | none => exact .untouched (by rw [seen, found]; rfl) admits hands silent
  | some row =>
    by_cases selected : selects row = true
    · simp only [found, Option.map_some, selected, if_true] at seen
      obtain ⟨result, status | ⟨running, queued, recovers⟩⟩ := turn row selected
      · refine .idle ?_ admits hands silent
        simp [Port.standing, seen, found, result, status]
      · refine .returned row.result ?_ ?_ recovers admits hands silent
        · simp [Port.standing, found, running]
        · simp [Port.standing, seen, queued, result]
    · exact .untouched (by simp [seen, found, selected]) admits hands silent

end Rows

/-- `port.move` always steps to `port.after`. -/
theorem Reach.after_cases {state after : σ} {step : ι}
    (stepped : port.move state step = some after) : after = port.after state step :=
  (Option.some.inj stepped).symm

theorem Lives.reach (lives : Lives port ok holds) (initial : holds first)
    (reached : Reach port.move ok first state) : holds state :=
  reached.invariant initial fun _ _ _ held allowed stepped => by
    rw [Reach.after_cases stepped]
    exact lives.keeps held allowed

/-- The outbox of a job that has not ended is empty, that of an ended one is short. -/
def Announced (port : Port σ ι) (state : σ) (jobId : String) : Prop :=
  (port.outbox state jobId).length ≤ 1 ∧
    ∀ status result, port.standing state jobId = some (status, result) →
      status.terminal = false → port.outbox state jobId = []

theorem Life.announced {step : ι} {jobId : String} (life : Life port state step jobId)
    (unknown : port.standing state jobId = none → port.outbox state jobId = [])
    (announced : Announced port state jobId) :
    Announced port (port.after state step) jobId ∧
      (port.standing (port.after state step) jobId = none →
        port.outbox (port.after state step) jobId = []) := by
  obtain ⟨short, live⟩ := announced
  cases life with
  | idle same admits hands silent =>
    unfold Announced
    rw [same, silent]
    exact ⟨⟨short, live⟩, unknown⟩
  | admitted vacant queued admits hands silent =>
    have empty : port.outbox state jobId = [] := by
      cases stands : port.standing state jobId with
      | none => exact unknown stands
      | some standing =>
        have running := vacant _ _ stands
        exact live _ _ stands (by rw [running]; rfl)
    unfold Announced
    rw [silent, empty]
    exact ⟨⟨by simp, fun _ _ _ _ => rfl⟩, fun _ => rfl⟩
  | handed result queued running admits silent =>
    unfold Announced
    rw [silent, live _ _ queued rfl]
    exact ⟨⟨by simp, fun _ _ _ _ => rfl⟩, fun _ => rfl⟩
  | returned result running queued recovers admits hands silent =>
    unfold Announced
    rw [silent, live _ _ running rfl]
    exact ⟨⟨by simp, fun _ _ _ _ => rfl⟩, fun _ => rfl⟩
  | settled status final before result known open_ ended terminal admits hands once =>
    rw [live _ _ known open_] at once
    refine ⟨⟨once, fun other _ stands live => ?_⟩, fun missing => ?_⟩
    · rw [ended] at stands
      cases stands
      simp [terminal] at live
    · simp [ended] at missing

/-- A terminal standing is left alone. -/
theorem Life.absorbed {step : ι} {jobId : String} (life : Life port state step jobId)
    {status : Status} {result : Option Dict}
    (stands : port.standing state jobId = some (status, result))
    (terminal : status.terminal = true) :
    port.standing (port.after state step) jobId = some (status, result) := by
  cases life with
  | idle same => rw [same, stands]
  | admitted vacant =>
    rw [vacant _ _ stands] at terminal
    cases terminal
  | handed _ queued =>
    rw [queued] at stands
    cases stands
    cases terminal
  | returned _ running =>
    rw [running] at stands
    cases stands
    cases terminal
  | settled _ _ _ _ live open_ =>
    rw [live] at stands
    cases stands
    simp [open_] at terminal

theorem Lives.absorbs (lives : Lives port ok holds) (initial : holds first)
    (silent : port.events first = []) : port.Absorbs ok first := by
  have outbox : ∀ {state}, Reach port.move ok first state → ∀ jobId,
      Announced port state jobId ∧
        (port.standing state jobId = none → port.outbox state jobId = []) := by
    intro state reached
    induction reached with
    | start =>
      intro jobId
      have empty : port.outbox first jobId = [] := by simp [Port.outbox, silent]
      exact ⟨⟨by simp [empty], fun _ _ _ _ => empty⟩, fun _ => empty⟩
    | next step before allowed stepped ih =>
      intro jobId
      rw [Reach.after_cases stepped]
      have life := lives.life (lives.reach initial before) allowed jobId
      exact life.announced (ih jobId).2 (ih jobId).1
  intro state later reached onward
  have held := lives.reach initial reached
  refine ⟨fun jobId row found terminal => Port.standing_eq_some.mp ?_, fun jobId => ?_⟩
  · have stands := Port.standing_eq_some.mpr ⟨row, found, rfl, rfl⟩
    -- The induction is on the later part of the run, which starts inside the invariant.
    induction onward with
    | start => exact stands
    | next step between allowed stepped ih =>
      rw [Reach.after_cases stepped]
      exact (lives.life (lives.reach held between) allowed jobId).absorbed ih terminal
  · exact (outbox (reached.trans onward) jobId).1.1

/-- The claims a job has left over: one while it stands in the queue. -/
def Owed (port : Port σ ι) (audited : Audited σ) (jobId : String) : Prop :=
  (audited.tally jobId).claimed + (port.status audited.state jobId == some .queued).toNat ≤
    (audited.tally jobId).enqueued + (audited.tally jobId).returned

theorem Life.owed {audited : Audited σ} {after : Audited σ} {step : ι} {jobId : String}
    (life : Life port audited.state step jobId) (stepped : port.audit audited step = some after)
    (owed : Owed port audited jobId) : Owed port after jobId := by
  obtain rfl := Option.some.inj stepped
  unfold Owed at owed ⊢
  simp only [Port.status_eq] at owed ⊢
  cases life with
  | idle same admits hands =>
    simp only [same, admits, hands]
    simp only [Bool.toNat_false, Nat.add_zero]
    omega
  | admitted vacant queued admits hands =>
    simp only [queued, admits, hands]
    simp only [Option.map_some, BEq.rfl, Bool.toNat_true, Bool.toNat_false, Nat.add_zero]
    omega
  | handed result queued running admits =>
    have single := Bool.toNat_le (port.hands audited.state step jobId)
    have apart : (some Status.running == some Status.queued) = false := rfl
    simp only [queued, running, admits, Option.map_some, apart] at owed ⊢
    simp at owed ⊢
    omega
  | returned result running queued recovers admits hands =>
    have back : port.returns audited.state step jobId = true := by
      simp [Port.returns, recovers, Port.status_eq, running, queued]
    simp only [running, queued, admits, hands, back] at owed ⊢
    simp at owed ⊢
    omega
  | settled status final before result live open_ ended terminal admits hands =>
    have notQueued : (some final == some Status.queued) = false := by
      cases final <;> simp_all [Status.terminal]
    simp only [live, ended, admits, hands] at owed ⊢
    simp only [Option.map_some, notQueued, Bool.toNat_false, Nat.add_zero]
    omega

theorem reach_of_audit {audited : Audited σ}
    (reached : Reach port.audit (fun audited => ok audited.state) { state := first } audited) :
    Reach port.move ok first audited.state := by
  induction reached with
  | start => exact .start
  | next step _ allowed stepped ih =>
    obtain rfl := Option.some.inj stepped
    exact ih.next step allowed rfl

theorem Lives.claimsOnce (lives : Lives port ok holds) (initial : holds first)
    (fresh : ∀ jobId, port.get first jobId = none) : port.ClaimsOnce ok first := by
  have owed : ∀ {audited},
      Reach port.audit (fun audited => ok audited.state) { state := first } audited →
      ∀ jobId, Owed port audited jobId := by
    intro audited reached
    induction reached with
    | start =>
      intro jobId
      simp [Owed, Port.status, fresh]
    | next step before allowed stepped ih =>
      intro jobId
      have held := lives.reach initial (reach_of_audit before)
      exact (lives.life held allowed jobId).owed stepped (ih jobId)
  intro audited reached jobId
  refine ⟨(Nat.le_add_right _ _).trans (owed reached jobId), fun step allowed handed => ?_⟩
  have held := lives.reach initial (reach_of_audit reached)
  rw [Port.status_eq]
  cases lives.life held allowed jobId with
  | idle _ _ hands => simp [hands] at handed
  | admitted _ _ _ hands => simp [hands] at handed
  | handed _ queued => simp [queued]
  | returned _ _ _ _ _ hands => simp [hands] at handed
  | settled _ _ _ _ _ _ _ _ _ hands => simp [hands] at handed

end QueueWorkflows.Backend

import QueueWorkflows.Engine.BackendFactory

/-! The rows of `worker_controls`. For each worker a row has the switch by which an operator turns
it on and off, and the configuration of its LLM server; the two are written by different calls, and
each call makes the row if there is none. -/

namespace QueueWorkflows.WorkerControl

open BackendFactory (Key LLMConfig LLMEdit Row ServerType llmConfigFor)

def STATE_ON : String := "on"

def STATE_OFF : String := "off"

/-- The policies that `STOP_POLICIES` has a handler for. -/
inductive StopPolicy where
  | hard
deriving DecidableEq

def StopPolicy.named : String → Option StopPolicy
  | "hard" => some .hard
  | _ => none

/-- The columns that `set_worker_control` writes. -/
structure Control where
  desiredState : String := STATE_ON
  stopPolicy : String := "hard"
  requestedBy : Option String := none
deriving DecidableEq

structure ControlRow where
  key : Key
  control : Control := {}
  llm : LLMConfig := {}
deriving DecidableEq

def getWorkerControl (rows : List ControlRow) (key : Key) : Option ControlRow :=
  rows.find? fun row => row.key = key

def desiredStateFor (rows : List ControlRow) (key : Key) : String :=
  match getWorkerControl rows key with
  | some row => if row.control.desiredState = STATE_OFF then STATE_OFF else STATE_ON
  | none => STATE_ON

/-- The columns that the factory of LLM backends reads. -/
def configRows (rows : List ControlRow) : List Row :=
  rows.map fun row => ⟨row.key, row.llm⟩

/-! ### Statements and calls -/

/-- An `INSERT … ON CONFLICT (host_label, queue) DO UPDATE`. -/
inductive Write where
  | switch (key : Key) (control : Control)
  | configure (key : Key) (edit : LLMEdit)

namespace Write

def key : Write → Key
  | .switch key _ | .configure key _ => key

/-- The row that the statement leaves, of the row it finds or of the defaults of a new one. -/
def change : Write → ControlRow → ControlRow
  | .switch _ control, row => { row with control := control }
  | .configure _ edit, row => { row with llm := edit.coalesce row.llm }

@[simp] theorem change_key (write : Write) (row : ControlRow) :
    (write.change row).key = row.key := by
  cases write <;> rfl

/-- The row under the key of the statement, or a new one. -/
def found (write : Write) (rows : List ControlRow) : ControlRow :=
  (getWorkerControl rows write.key).getD { key := write.key }

def apply (rows : List ControlRow) (write : Write) : List ControlRow :=
  Keyed.put ControlRow.key (write.change (write.found rows)) rows

/-- The `CHECK` constraints let the statement through. -/
def checked : Write → Bool
  | .switch _ control => [STATE_ON, STATE_OFF].contains control.desiredState
  | .configure _ edit => edit.serverType.all (fun name => (ServerType.named name).isSome) &&
      edit.parallelism.all (fun parallelism => decide (1 ≤ parallelism)) &&
      edit.vllmIdleTtlS.all fun ttl => decide (0 ≤ ttl)

end Write

inductive Call where
  | setWorkerControl (key : Key) (control : Control)
  | disableWorker (key : Key) (stopPolicy : String) (requestedBy : Option String)
  | enableWorker (key : Key) (requestedBy : Option String)
  | setLlmConfig (key : Key) (edit : LLMEdit)

def Control.check (reprOf : String → String) (control : Control) : Except PyErr Unit :=
  if control.desiredState ≠ STATE_ON ∧ control.desiredState ≠ STATE_OFF then
    .error ⟨.valueError, "desired_state must be in ['off', 'on'], got " ++
      reprOf control.desiredState⟩
  else if StopPolicy.named control.stopPolicy = none then
    .error ⟨.valueError, "stop_policy must be a registered policy ['hard'], got " ++
      reprOf control.stopPolicy ++ " (register a handler in worker_control.STOP_POLICIES)"⟩
  else .ok ()

/-- The statement of a call, unless it raises before. -/
def Call.write (reprOf : String → String) : Call → Except PyErr Write
  | .setWorkerControl key control => (control.check reprOf).map fun _ => .switch key control
  | .disableWorker key stopPolicy requestedBy =>
    let control := { desiredState := STATE_OFF, stopPolicy, requestedBy }
    (Control.check reprOf control).map fun _ => .switch key control
  | .enableWorker key requestedBy =>
    let control := { desiredState := STATE_ON, requestedBy }
    (Control.check reprOf control).map fun _ => .switch key control
  | .setLlmConfig key edit => (edit.check reprOf).map fun _ => .configure key edit

def Call.perform (reprOf : String → String) (rows : List ControlRow) (call : Call) :
    List ControlRow :=
  match call.write reprOf with
  | .ok write => write.apply rows
  | .error _ => rows

/-! ### What a row tells -/

section Rows

variable {reprOf : String → String} {rows : List ControlRow} {writes : List Write} {write : Write}
  {key : Key} {calls : List Call}

theorem found_key : (write.found rows).key = write.key := by
  unfold Write.found getWorkerControl
  cases stored : rows.find? fun row => row.key = write.key with
  | none => rfl
  | some row => simpa using List.find?_some stored

theorem getWorkerControl_apply : getWorkerControl (write.apply rows) key =
    if write.key = key then some (write.change (write.found rows))
    else getWorkerControl rows key := by
  refine (Keyed.find_put key).trans ?_
  rw [Write.change_key, found_key]
  rfl

theorem desiredStateFor_cases (rows : List ControlRow) (key : Key) :
    desiredStateFor rows key = STATE_ON ∨ desiredStateFor rows key = STATE_OFF := by
  unfold desiredStateFor
  split
  · split
    · exact .inr rfl
    · exact .inl rfl
  · exact .inl rfl

/-- A write of the configuration turns nothing on or off. -/
theorem desiredStateFor_configure (rows : List ControlRow) (key other : Key) (edit : LLMEdit) :
    desiredStateFor (Write.apply rows (.configure other edit)) key = desiredStateFor rows key := by
  unfold desiredStateFor
  rw [getWorkerControl_apply]
  by_cases same : (Write.configure other edit).key = key
  · rw [if_pos same]
    subst same
    cases stored : getWorkerControl rows (Write.configure other edit).key with
    | none => simp [Write.change, Write.found, stored, STATE_ON, STATE_OFF]
    | some row => simp [Write.change, Write.found, stored]
  · rw [if_neg same]

/-- On the columns that the factory reads, an edit is the one that its own model makes. -/
theorem configRows_configure {edit : LLMEdit} (accepted : edit.check reprOf = .ok ()) :
    ∃ notices, BackendFactory.setLlmConfig reprOf (configRows rows) key edit =
      .ok (configRows (Write.apply rows (.configure key edit)), notices) := by
  have put := @Keyed.map_put ControlRow Key _ ControlRow.key
    ((Write.configure key edit).change ((Write.configure key edit).found rows)) rows Row Row.key
    (fun row => ⟨row.key, row.llm⟩) fun row => rfl
  have stored : (configRows rows).find? (fun row => row.key = key) =
      (getWorkerControl rows key).map fun row => ⟨row.key, row.llm⟩ := List.find?_map
  have same : (Write.configure key edit).key = key := rfl
  unfold BackendFactory.setLlmConfig
  rw [accepted, stored]
  cases kept : getWorkerControl rows key with
  | none =>
    refine ⟨[.of key], congrArg Except.ok (congrArg (fun rows => (rows, _)) (Eq.trans ?_ put))⟩
    simp [Write.change, Write.found, kept, same, configRows]
  | some row =>
    have named : row.key = key := by simpa using List.find?_some kept
    refine ⟨_, congrArg Except.ok (congrArg (fun rows => (rows, _)) (Eq.trans ?_ put))⟩
    simp [Write.change, Write.found, kept, same, configRows, named]

/-! ### What has been asked for -/

/-- The switch that a statement is, if it is one of this worker. -/
def switchOf (key : Key) : Write → Option Control
  | .switch other control => if other = key then some control else none
  | .configure _ _ => none

def editOf (key : Key) : Write → Option LLMEdit
  | .switch _ _ => none
  | .configure other edit => if other = key then some edit else none

/-- The last switch of the worker. -/
def switched (key : Key) (writes : List Write) : Control :=
  ((writes.filterMap (switchOf key)).getLast?).getD {}

/-- The configuration of the worker after all its edits. -/
def configured (key : Key) (writes : List Write) : LLMConfig :=
  (writes.filterMap (editOf key)).foldl (fun config edit => edit.coalesce config) {}

/-- The row that statements leave of a worker. -/
def asked (key : Key) (writes : List Write) : Option ControlRow :=
  if writes.any fun write => write.key = key then
    some { key, control := switched key writes, llm := configured key writes }
  else none

/-- The statements of the calls that have not raised. -/
def accepted (reprOf : String → String) (calls : List Call) : List Write :=
  calls.filterMap fun call => (call.write reprOf).toOption

theorem unasked (none : ¬ writes.any fun write => write.key = key) :
    switched key writes = {} ∧ configured key writes = {} := by
  have apart : ∀ write ∈ writes, write.key ≠ key := by
    intro write listed same
    exact none (List.any_eq_true.mpr ⟨write, listed, by simpa using same⟩)
  have switches : writes.filterMap (switchOf key) = [] := by
    rw [List.filterMap_eq_nil_iff]
    intro write listed
    cases write with
    | switch other control => exact if_neg (apart _ listed)
    | configure other edit => rfl
  have edits : writes.filterMap (editOf key) = [] := by
    rw [List.filterMap_eq_nil_iff]
    intro write listed
    cases write with
    | switch other control => rfl
    | configure other edit => exact if_neg (apart _ listed)
  constructor
  · rw [switched, switches]
    rfl
  · rw [configured, edits]
    rfl

theorem switched_snoc : switched key (writes ++ [write]) =
    (switchOf key write).getD (switched key writes) := by
  unfold switched
  rw [List.filterMap_append]
  cases one : switchOf key write with
  | none => simp [one]
  | some control => simp [one]

theorem configured_snoc : configured key (writes ++ [write]) =
    (editOf key write).elim (configured key writes) fun edit =>
      edit.coalesce (configured key writes) := by
  unfold configured
  rw [List.filterMap_append, List.foldl_append]
  cases one : editOf key write with
  | none => simp [one]
  | some edit => simp [one]

/-- A statement changes what has been asked of its own worker, and in its own columns. -/
theorem asked_snoc : asked key (writes ++ [write]) =
    if write.key = key then some (write.change ((asked key writes).getD { key }))
    else asked key writes := by
  have before : (asked key writes).getD { key } =
      { key, control := switched key writes, llm := configured key writes } := by
    unfold asked
    split
    · rfl
    · rename_i none
      rw [(unasked none).1, (unasked none).2]
      rfl
  have listed : ((writes ++ [write]).any fun write => write.key = key) =
      ((writes.any fun write => write.key = key) || decide (write.key = key)) := by
    rw [List.any_append, List.any_cons, List.any_nil, Bool.or_false]
  rw [before, asked, listed, switched_snoc, configured_snoc]
  by_cases same : write.key = key
  · rw [if_pos (by simp [same]), if_pos same]
    cases write with
    | switch other control =>
      rw [show switchOf key (.switch other control) = some control from if_pos same]
      rfl
    | configure other edit =>
      rw [show editOf key (.configure other edit) = some edit from if_pos same]
      rfl
  · rw [if_neg same, decide_eq_false same, Bool.or_false]
    cases write with
    | switch other control =>
      rw [show switchOf key (.switch other control) = none from if_neg same]
      rfl
    | configure other edit =>
      rw [show editOf key (.configure other edit) = none from if_neg same]
      rfl

theorem getWorkerControl_asked :
    getWorkerControl (writes.foldl Write.apply []) key = asked key writes := by
  induction writes using List.reverseRecOn with
  | nil => rfl
  | append_singleton writes write ih =>
    rw [List.foldl_concat, getWorkerControl_apply, asked_snoc]
    by_cases same : write.key = key
    · rw [if_pos same, if_pos same]
      subst same
      rw [Write.found, ih]
    · rw [if_neg same, if_neg same, ih]

theorem perform_accepted : calls.foldl (Call.perform reprOf) rows =
    (accepted reprOf calls).foldl Write.apply rows := by
  induction calls generalizing rows with
  | nil => rfl
  | cons call calls ih =>
    rw [List.foldl_cons, ih]
    unfold Call.perform accepted
    cases result : call.write reprOf with
    | ok write => simp [result, Except.toOption]
    | error error => simp [result, Except.toOption]

theorem checked_switch {control : Control} (passes : control.check reprOf = .ok ()) :
    (Write.switch key control).checked = true := by
  unfold Control.check at passes
  split at passes
  · cases passes
  · rename_i state
    rw [not_and_or, not_not, not_not] at state
    simpa [Write.checked] using state

theorem checked_configure {edit : LLMEdit} (passes : edit.check reprOf = .ok ()) :
    (Write.configure key edit).checked = true := by
  unfold LLMEdit.check at passes
  split at passes
  · cases passes
  · rename_i server
    split at passes
    · cases passes
    · rename_i parallel
      split at passes
      · cases passes
      · rename_i idle
        simp only [not_exists, not_and] at server parallel idle
        simp only [Write.checked, Bool.and_eq_true, Option.all_eq_true, decide_eq_true_eq]
        refine ⟨⟨?_, ?_⟩, ?_⟩
        · intro name given
          exact Option.isSome_iff_ne_none.mpr (server name given)
        · intro parallelism given
          exact not_lt.mp (parallel parallelism given)
        · intro ttl given
          exact not_lt.mp (idle ttl given)

/-- What the calls let through, the constraints of the table let through. -/
theorem checked_of_write {call : Call} (done : call.write reprOf = .ok write) :
    write.checked = true := by
  cases call with
  | setWorkerControl key control =>
    cases passes : control.check reprOf with
    | error error => simp [Call.write, passes, Except.map] at done
    | ok =>
      simp only [Call.write, passes, Except.map, Except.ok.injEq] at done
      exact done ▸ checked_switch passes
  | disableWorker key stopPolicy requestedBy =>
    cases passes : Control.check reprOf { desiredState := STATE_OFF, stopPolicy, requestedBy } with
    | error error => simp [Call.write, passes, Except.map] at done
    | ok =>
      simp only [Call.write, passes, Except.map, Except.ok.injEq] at done
      exact done ▸ checked_switch passes
  | enableWorker key requestedBy =>
    cases passes : Control.check reprOf { desiredState := STATE_ON, requestedBy } with
    | error error => simp [Call.write, passes, Except.map] at done
    | ok =>
      simp only [Call.write, passes, Except.map, Except.ok.injEq] at done
      exact done ▸ checked_switch passes
  | setLlmConfig key edit =>
    cases passes : edit.check reprOf with
    | error error => simp [Call.write, passes, Except.map] at done
    | ok =>
      simp only [Call.write, passes, Except.map, Except.ok.injEq] at done
      exact done ▸ checked_configure passes

/-- The table after some calls. -/
structure Told (reprOf : String → String) (calls : List Call) (rows : List ControlRow) : Prop where
  row : ∀ key, getWorkerControl rows key = asked key (accepted reprOf calls)
  state : ∀ key, desiredStateFor rows key =
    if (switched key (accepted reprOf calls)).desiredState = STATE_OFF then STATE_OFF else STATE_ON
  config : ∀ key, llmConfigFor (configRows rows) key = configured key (accepted reprOf calls)
  checked : ∀ write ∈ accepted reprOf calls, write.checked = true

/-- **Two hands on one row.** Whatever calls are made, and whichever of them raise, every row has
the switch that was set last and the configuration of all edits together; neither kind of call
shows in what is read of the other, and no statement of theirs breaks a constraint. -/
theorem rows_tell_what_was_asked (reprOf : String → String) (calls : List Call) :
    Told reprOf calls (calls.foldl (Call.perform reprOf) []) := by
  rw [perform_accepted]
  constructor
  · intro key
    exact getWorkerControl_asked
  · intro key
    unfold desiredStateFor
    rw [getWorkerControl_asked, asked]
    split
    · rename_i row found
      split at found <;> cases found
      rfl
    · rename_i found
      split at found
      · cases found
      · rename_i none
        rw [(unasked none).1]
        rfl
  · intro key
    unfold llmConfigFor
    rw [show (configRows _).find? (fun row => row.key = key) =
      (getWorkerControl _ key).map fun row => ⟨row.key, row.llm⟩ from List.find?_map,
      getWorkerControl_asked, asked]
    split
    · rename_i row found
      split at found <;> cases found
      rfl
    · rename_i found
      split at found
      · cases found
      · rename_i none
        rw [(unasked none).2]
  · intro write listed
    obtain ⟨call, -, done⟩ := List.mem_filterMap.mp listed
    cases result : call.write reprOf with
    | error error => simp [result, Except.toOption] at done
    | ok other =>
      simp only [result, Except.toOption, Option.some.injEq] at done
      exact checked_of_write (done ▸ result)

end Rows

end QueueWorkflows.WorkerControl

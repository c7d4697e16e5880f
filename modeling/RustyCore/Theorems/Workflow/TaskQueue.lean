import RustyCore.Theorems.Workflow.RepairFocus
import RustyCore.Workflow.TaskQueueRun

/-! Whatever happens to its tasks, a task queue can be resumed from each of its checkpoints: the entries are of the
    first tasks of the plan in order, so that a run goes on with the next one, and no task is built on a skipped
    one. -/

namespace RustyCore

open List

namespace TaskQueue

section

variable [CharTables] {plan : Plan} {c : List Value} {task : Task}

/-- Entries for the first tasks of the plan, each of which settles its task. -/
structure Good (plan : Plan) (c : List Value) : Prop where
  length : c.length ≤ plan.tasks.length
  settled : ∀ pair ∈ plan.tasks.zip c, settles pair.1 pair.2 = true

theorem checkMatchesPlan_iff {p : Progress} : checkMatchesPlan p plan = .ok () ↔ p.plan = some plan ∧ Good plan p.completed := by
  unfold checkMatchesPlan
  split
  · rename_i h
    simp only [Bool.or_eq_true, bne_iff_ne, decide_eq_true_eq] at h
    constructor
    · intro hok
      cases hok
    · rintro ⟨hplan, hgood⟩
      have hlength := hgood.length
      rcases h with h | h
      · exact absurd hplan h
      · omega
  · rename_i h
    simp only [Bool.or_eq_true, bne_iff_ne, decide_eq_true_eq, not_or, not_not, not_lt] at h
    split
    · rename_i hany
      constructor
      · intro hok
        cases hok
      · rintro ⟨-, hgood⟩
        obtain ⟨pair, hpair, hnot⟩ := any_eq_true.mp hany
        have hsettled := hgood.settled pair hpair
        simp [hsettled] at hnot
    · rename_i hany
      refine ⟨fun _ => ⟨h.1, h.2, fun pair hpair => ?_⟩, fun _ => rfl⟩
      by_contra hnot
      exact hany (any_eq_true.mpr ⟨pair, hpair, by simpa using hnot⟩)

theorem Good.take (h : Good plan c) (n : Nat) : Good plan (c.take n) := by
  refine ⟨?_, fun pair hpair => h.settled pair ?_⟩
  · have := h.length
    rw [length_take]
    omega
  · obtain ⟨i, hi, rfl⟩ := mem_iff_getElem.mp hpair
    rw [getElem_zip, getElem_take, ← getElem_zip]
    · exact getElem_mem _
    · simp only [length_zip, length_take] at hi ⊢
      omega

theorem Good.push (h : Good plan c) {rest : List Task} (hnext : plan.tasks.drop c.length = task :: rest) {done : Value}
    (hdone : settles task done = true) : Good plan (c ++ [done]) := by
  have hlength : c.length < plan.tasks.length := by
    by_contra hnot
    rw [drop_eq_nil_of_le (by omega)] at hnext
    cases hnext
  refine ⟨by simpa using Nat.succ_le_of_lt hlength, ?_⟩
  have hsplit : plan.tasks = plan.tasks.take c.length ++ task :: rest := by rw [← hnext, take_append_drop]
  have htake : (plan.tasks.take c.length).length = c.length := by
    rw [length_take]
    omega
  have hzip : plan.tasks.zip (c ++ [done]) = (plan.tasks.take c.length).zip c ++ [(task, done)] := by
    conv_lhs => rw [hsplit]
    rw [zip_append htake, zip_cons_cons, zip_nil_right]
  rw [hzip]
  intro pair hpair
  rcases mem_append.mp hpair with hpair | hpair
  · refine h.settled pair ?_
    have hall : plan.tasks.zip c = (plan.tasks.take c.length).zip c := by
      have happ : (plan.tasks.take c.length ++ task :: rest).zip (c ++ []) = _ := zip_append htake
      rw [← hsplit, append_nil, zip_nil_right, append_nil] at happ
      exact happ
    rw [hall]
    exact hpair
  · rw [mem_singleton.mp hpair]
    exact hdone

theorem Good.ids (h : Good plan c) :
    c.map (field · "task_id") = (plan.tasks.take c.length).map fun task => some task.id := by
  refine ext_getElem (by simp [h.length]) fun i hi hi' => ?_
  simp only [length_map] at hi
  have hlt : i < plan.tasks.length := Nat.lt_of_lt_of_le hi h.length
  have hpair : (plan.tasks[i], (c)[i]) ∈ plan.tasks.zip c := by
    rw [← getElem_zip (h := by simp; omega)]
    exact getElem_mem _
  have hsettles := h.settled _ hpair
  simp only [settles, Task.owns, Bool.and_eq_true, beq_iff_eq] at hsettles
  simpa using hsettles.2

theorem Good.find?_next (h : Good plan c) (hunique : (plan.tasks.map (·.id)).Nodup) :
    plan.tasks.find? (fun task => !(c.map (field · "task_id")).contains (some task.id)) =
      (plan.tasks.drop c.length).head? := by
  conv_lhs => rw [← take_append_drop c.length plan.tasks]
  rw [h.ids, List.find?_append]
  have hnone : (plan.tasks.take c.length).find? (fun task =>
      !((plan.tasks.take c.length).map fun task => some task.id).contains (some task.id)) = none := by
    rw [List.find?_eq_none]
    intro task htask
    simp only [Bool.not_eq_true', Bool.not_eq_false, contains_eq_mem, decide_eq_true_eq]
    exact mem_map_of_mem htask
  rw [hnone, Option.none_or]
  cases hdrop : plan.tasks.drop c.length with
  | nil => rfl
  | cons task rest =>
    rw [List.find?_cons_of_pos]
    · rfl
    · rw [← take_append_drop c.length plan.tasks, hdrop, map_append, nodup_append] at hunique
      simp only [Bool.not_eq_true', contains_eq_mem, decide_eq_false_iff_not, mem_map, not_exists, not_and]
      intro other hother hsame
      refine hunique.2.2 other.id (mem_map_of_mem hother) task.id (by simp) ?_
      exact Option.some.inj hsame

omit [CharTables] in
theorem checkTasks_nodup {requirements : List String} {owners : List (String × String)} {seen covered : List String}
    {tasks : List Task} (h : checkTasks requirements owners seen covered tasks = .ok ()) :
    (tasks.map (·.id)).Nodup ∧ ∀ task ∈ tasks, task.id ∉ seen := by
  induction tasks generalizing seen covered with
  | nil => simp
  | cons task rest ih =>
    unfold checkTasks at h
    split at h
    · cases h
    · rename_i hcheck
      obtain ⟨hnodup, hfresh⟩ := ih h
      have hnew : task.id ∉ seen := by
        intro hmem
        unfold checkTask at hcheck
        split at hcheck
        · cases hcheck
        · split at hcheck
          · cases hcheck
          · rename_i hnamed
            simp only [Bool.or_eq_true, not_or, contains_eq_mem, decide_eq_true_eq] at hnamed
            exact hnamed.1.1.2 hmem
      refine ⟨?_, ?_⟩
      · rw [map_cons, nodup_cons]
        refine ⟨fun hmem => ?_, hnodup⟩
        obtain ⟨other, hother, hsame⟩ := mem_map.mp hmem
        exact hfresh other hother (by rw [hsame]; exact mem_cons_self)
      · rw [forall_mem_cons]
        exact ⟨hnew, fun other hother hmem => hfresh other hother (mem_cons_of_mem _ hmem)⟩

omit [CharTables] in
theorem nodup_of_checkPlan (h : checkPlan plan = .ok ()) : (plan.tasks.map (·.id)).Nodup := by
  unfold checkPlan at h
  split at h
  · cases h
  · split at h
    · cases h
    · exact (checkTasks_nodup h).1

/-- A checkpoint can be resumed from, work starts on the first task without an entry, and no task is built on a
    skipped one. -/
def Sound (plan : Plan) : Event → Prop
  | .checkpoint saved => checkMatchesPlan saved plan = .ok ()
  | .started task completed =>
    plan.tasks.find? (fun task => !(completed.map (field · "task_id")).contains (some task.id)) = some task
  | .built task completed =>
    ∀ id ∈ task.dependsOn, (completed.any fun done => flag done "skipped" && field done "task_id" == some id) = false

structure At (plan : Plan) (c : List Value) (r : Run) : Prop where
  plan : r.progress.plan = some plan
  completed : r.progress.completed = c

/-- From a run with these entries it ends with the same ones, and its events are sound. -/
def Keeps {α : Type} (plan : Plan) (c : List Value) (m : QueueM α) : Prop :=
  m.Ensures (Sound plan) (At plan c) fun _ => At plan c

/-- No task that `task` depends on was skipped. -/
def Unblocked (task : Task) (c : List Value) : Prop :=
  ∀ id ∈ task.dependsOn, (c.any fun done => flag done "skipped" && field done "task_id" == some id) = false

namespace Queue

open Procedure

section

variable {α β : Type}

theorem Keeps.bind {m : QueueM α} {f : α → QueueM β} (h : Keeps plan c m) (h' : ∀ a, Keeps plan c (f a)) :
    Keeps plan c (m >>= f) := Ensures.bind h h'

theorem Keeps.pure (a : α) : Keeps plan c (pure a : QueueM α) := Ensures.pure fun _ h => h

theorem keeps_get : Keeps plan c (Procedure.get : QueueM Run) := Ensures.get.post fun _ _ h => h.2

theorem keeps_throw (e : QueueError) : Keeps plan c (Procedure.throw e : QueueM α) := Ensures.throw

theorem keeps_ofExcept (result : Except QueueError α) : Keeps plan c (Procedure.ofExcept result : QueueM α) :=
  Ensures.ofExcept fun _ _ _ h => h

theorem keeps_ask (answer : Nat → α) : Keeps plan c (ask answer) :=
  Keeps.bind keeps_get fun _ => Keeps.bind (Ensures.modify fun _ h => ⟨h.plan, h.completed⟩) fun _ => Keeps.pure _

theorem keeps_perform (answer : Nat → Except QueueError α) : Keeps plan c (perform answer) :=
  Keeps.bind (keeps_ask answer) fun result => keeps_ofExcept result

theorem keeps_change {f : Progress → Progress} (h : ∀ p, (f p).plan = p.plan ∧ (f p).completed = p.completed) :
    Keeps plan c (change f) := by
  refine Ensures.modify fun r hr => ⟨?_, ?_⟩
  · rw [(h r.progress).1]
    exact hr.plan
  · rw [(h r.progress).2]
    exact hr.completed

theorem keeps_annotate (key : String) (value : Progress → Value) :
    Keeps plan c (change fun p => p.annotateCurrent key (value p)) := keeps_change fun _ => ⟨rfl, rfl⟩

theorem keeps_checkpoint (w : World) (hgood : Good plan c) : Keeps plan c (checkpoint w) := by
  refine Keeps.bind (Ensures.log (fun r hr => ?_) fun _ hr => hr) fun _ => keeps_perform _
  exact checkMatchesPlan_iff.mpr ⟨hr.plan, by rwa [hr.completed]⟩

end

variable (w : World)

theorem keeps_advanceBaseline (task : Task) : Keeps plan c (advanceBaseline w task) := by
  refine Keeps.bind (keeps_ask _) fun taken => ?_
  cases taken with
  | none => exact Keeps.pure _
  | some taken => exact keeps_change fun _ => ⟨rfl, rfl⟩

theorem keeps_baseline (task : Task) : Keeps plan c (baseline w task) := by
  refine Keeps.bind keeps_get fun r => ?_
  split
  · exact Keeps.pure _
  · exact keeps_advanceBaseline w task

theorem keeps_undoAttempt (task : Task) (why : String) : Keeps plan c (undoAttempt w task why) := by
  refine Keeps.bind keeps_get fun r => ?_
  split
  · refine Keeps.bind (keeps_ask _) fun undo => ?_
    split
    · exact Keeps.pure _
    · exact keeps_change fun _ => ⟨rfl, rfl⟩
  · exact Keeps.pure _

theorem keeps_buildWatched (hunblocked : Unblocked task c) : Keeps plan c (buildWatched w task) := by
  refine Keeps.bind (Ensures.log (fun r hr => ?_) fun _ hr => hr) fun _ => keeps_perform _
  rw [hr.completed]
  exact hunblocked

theorem keeps_finishStep (hgood : Good plan c) (task : Task) (index : Nat) : Keeps plan c (finishStep w task index) :=
  Keeps.bind (keeps_change fun _ => ⟨rfl, rfl⟩) fun _ =>
    Keeps.bind (keeps_advanceBaseline w task) fun _ => keeps_checkpoint w hgood

theorem keeps_buildSteps (hgood : Good plan c) (hunblocked : Unblocked task c) (total remaining : Nat)
    (summaries : List String) : Keeps plan c (buildSteps w task total remaining summaries) := by
  induction remaining generalizing summaries with
  | zero => exact Keeps.pure _
  | succ remaining ih =>
    refine Keeps.bind (keeps_buildWatched w hunblocked) fun built => ?_
    cases built with
    | stopped reason => exact Keeps.pure _
    | replied reply =>
      dsimp only
      split
      · exact Keeps.pure _
      · exact Keeps.bind (keeps_finishStep w hgood task _) fun _ => ih _

theorem keeps_buildTask (hgood : Good plan c) (hunblocked : Unblocked task c) : Keeps plan c (buildTask w task) := by
  refine Keeps.bind keeps_get fun r => ?_
  split
  · exact keeps_buildWatched w hunblocked
  · exact keeps_buildSteps w hgood hunblocked _ _ _

theorem keeps_recordBuild (hgood : Good plan c) (task : Task) (built : Value) (status : String)
    (before : List (String × String)) (repair : Nat) : Keeps plan c (recordBuild w task built status before repair) := by
  unfold recordBuild
  dsimp only
  split
  · refine Keeps.bind (keeps_ask _) fun now => Keeps.bind (keeps_change fun p => ?_) fun _ => keeps_checkpoint w hgood
    split <;> exact ⟨rfl, rfl⟩
  · refine Keeps.bind (Keeps.pure _) fun now => Keeps.bind (keeps_change fun p => ?_) fun _ => keeps_checkpoint w hgood
    split <;> exact ⟨rfl, rfl⟩

def Recorded (plan : Plan) (c : List Value) (task : Task) (recorded : Bool) (r : Run) : Prop :=
  if recorded then ∃ done, settles task done = true ∧ At plan (c ++ [done]) r else At plan c r

def recorded (planned : Bool) : TaskOutcome → Bool
  | .accepted => planned
  | .failed _ => false

def Next (plan : Plan) (c : List Value) (task : Task) (planned : Bool) : Prop :=
  planned = true → ∃ rest, plan.tasks.drop c.length = task :: rest

theorem settles_acceptedEntry {built reviewed : Value} (snapshot : Option Value)
    (h : reviewComplete task reviewed = true) : settles task (acceptedEntry task built reviewed snapshot) = true := by
  have hreview : ((acceptedEntry task built reviewed snapshot).get "review").getD .null = reviewed := by
    cases snapshot <;> rfl
  have hid : field (acceptedEntry task built reviewed snapshot) "task_id" = some task.id := by
    cases snapshot <;> rfl
  simp [settles, Task.owns, hreview, hid, h]

omit [CharTables] in
theorem owns_skippedEntry (task : Task) (reason : String) : field (skippedEntry task reason) "task_id" = some task.id := rfl

theorem settles_skippedEntry (task : Task) (reason : String) : settles task (skippedEntry task reason) = true := by
  have hskipped : flag (skippedEntry task reason) "skipped" = true := rfl
  simp [settles, Task.owns, hskipped, owns_skippedEntry]

theorem good_push (hgood : Good plan c) (hnext : Next plan c task true) {done : Value}
    (hdone : settles task done = true) : Good plan (c ++ [done]) := by
  obtain ⟨rest, hrest⟩ := hnext rfl
  exact hgood.push hrest hdone

theorem ensures_record {f : Progress → Progress} {done : Value} (hdone : settles task done = true)
    (h : ∀ p, (f p).plan = p.plan ∧ (f p).completed = p.completed ++ [done]) :
    (change f).Ensures (Sound plan) (At plan c) fun _ => Recorded plan c task true := by
  refine Ensures.modify fun r hr => ⟨done, hdone, ?_, ?_⟩
  · rw [(h r.progress).1]
    exact hr.plan
  · rw [(h r.progress).2, hr.completed]

theorem ensures_recorded {α : Type} {m : QueueM α} {planned : Bool} (hgood : Good plan c)
    (hnext : Next plan c task planned) (h : ∀ c', Good plan c' → Keeps plan c' m) :
    m.Ensures (Sound plan) (Recorded plan c task planned) fun _ => Recorded plan c task planned := by
  cases planned with
  | false => exact h c hgood
  | true =>
    rintro r ⟨done, hdone, hat⟩
    obtain ⟨hlog, hresult⟩ := h _ (good_push hgood hnext hdone) r hat
    exact ⟨hlog, fun a ha => ⟨done, hdone, hresult a ha⟩⟩

variable {planned : Bool}

theorem ensures_recordAcceptance (hgood : Good plan c) (hnext : Next plan c task planned) {reviewed : Value}
    (hreview : reviewComplete task reviewed = true) (built : Value) (results : List (String × CheckErrors)) :
    (recordAcceptance w task planned built reviewed results).Ensures (Sound plan) (At plan c)
      fun _ => Recorded plan c task planned := by
  have hclear := ensures_recorded (m := change fun p => { p with
    current := none
    stepPlan := none
    baseline := none
    split := none
    checkErrors := results.foldl (fun errors entry => errors.insert entry.1 entry.2) p.checkErrors })
    hgood hnext fun _ _ => keeps_change fun _ => ⟨rfl, rfl⟩
  unfold recordAcceptance
  cases planned with
  | false => exact Ensures.bind (keeps_change fun _ => ⟨rfl, rfl⟩) fun _ => hclear
  | true =>
    refine Ensures.bind (keeps_ask _) fun taken => Ensures.bind ?_ fun _ => hclear
    exact ensures_record (settles_acceptedEntry taken hreview) fun _ => ⟨rfl, rfl⟩

def outcome : Attempt → Bool
  | .finished .accepted => true
  | _ => false

theorem ensures_judge (hgood : Good plan c) (hnext : Next plan c task planned) (built reviewed : Value)
    (results : List (String × CheckErrors)) (changed afterRejection : Bool) :
    (judge w task planned built reviewed results changed afterRejection).Ensures (Sound plan) (At plan c)
      fun a => Recorded plan c task (outcome a && planned) := by
  unfold judge
  split
  · rename_i hreview
    refine Ensures.bind (ensures_recordAcceptance w hgood hnext hreview built results) fun _ => ?_
    refine Ensures.bind (ensures_recorded hgood hnext fun _ h => keeps_checkpoint w h) fun _ => ?_
    exact Ensures.pure fun _ h => by simpa [outcome] using h
  · refine Ensures.bind (keeps_checkpoint w hgood) fun _ => ?_
    dsimp only
    split
    · exact Ensures.pure fun _ h => h
    · split
      · exact Ensures.pure fun _ h => h
      · exact Ensures.pure fun _ h => h

theorem ensures_attempt (hgood : Good plan c) (hnext : Next plan c task planned) (hunblocked : Unblocked task c)
    (repair : Nat) (afterRejection : Bool) :
    (attempt w task planned repair afterRejection).Ensures (Sound plan) (At plan c)
      fun a => Recorded plan c task (outcome a && planned) := by
  unfold attempt
  refine Ensures.bind (keeps_ask _) fun before => Ensures.bind (keeps_buildTask w hgood hunblocked) fun built => ?_
  cases built with
  | stopped reason =>
    exact Ensures.bind (keeps_change fun _ => ⟨rfl, rfl⟩) fun _ => Ensures.pure fun _ h => h
  | replied built =>
    refine Ensures.bind (keeps_ofExcept _) fun _ => ?_
    refine Ensures.bind (keeps_recordBuild w hgood task built _ before repair) fun _ => ?_
    dsimp only
    split
    · exact Ensures.pure fun _ h => h
    · split
      · exact Ensures.pure fun _ h => h
      · refine Ensures.bind (keeps_ask _) fun checked => ?_
        split
        · refine Ensures.bind (keeps_annotate _ _) fun _ => ?_
          exact Ensures.bind (keeps_checkpoint w hgood) fun _ => Ensures.pure fun _ h => h
        · refine Ensures.bind (keeps_ask _) fun now => Ensures.bind (keeps_perform _) fun reviewed => ?_
          refine Ensures.bind (keeps_ofExcept _) fun _ => Ensures.bind (keeps_annotate _ _) fun _ => ?_
          exact ensures_judge w hgood hnext built reviewed _ _ _

def settled : Rounds → Bool
  | .settled .accepted => true
  | _ => false

/-- Each round builds and judges; the entry is pushed by the one that accepts. -/
theorem ensures_rounds (hgood : Good plan c) (hnext : Next plan c task planned) (hunblocked : Unblocked task c)
    (maxRepairs left : Nat) (last : Ended) :
    (rounds w task planned maxRepairs left last).Ensures (Sound plan) (At plan c)
      fun a => Recorded plan c task (settled a && planned) := by
  induction left generalizing last with
  | zero => exact Ensures.pure fun _ h => h
  | succ left ih =>
    unfold rounds
    refine Ensures.bind (keeps_ask _) fun cancelled => ?_
    split
    · exact Ensures.throw
    · refine Ensures.bind (ensures_attempt w hgood hnext hunblocked _ _) fun a => ?_
      cases a with
      | finished outcome =>
        refine Ensures.pure fun _ h => ?_
        cases outcome <;> exact h
      | stop ended => exact Ensures.pure fun _ h => h
      | retry ended => exact ih ended

variable (settings : TaskQueueConfig)

theorem keeps_recordSplit (task : Task) (steps : List String) : Keeps plan c (recordSplit task steps) :=
  keeps_change fun _ => ⟨rfl, rfl⟩

theorem keeps_planTask (hgood : Good plan c) (task : Task) (guidance : Option String) :
    Keeps plan c (planTask w settings task guidance) := by
  refine Keeps.bind keeps_get fun r => ?_
  dsimp only
  split
  · exact Keeps.pure _
  · split
    · exact Keeps.pure _
    · refine Keeps.bind (keeps_perform _) fun planned => ?_
      cases planned with
      | gap question => exact Keeps.pure _
      | split steps =>
        exact Keeps.bind (keeps_recordSplit task steps) fun _ => Keeps.bind (keeps_checkpoint w hgood) fun _ => Keeps.pure _
      | plan text =>
        exact Keeps.bind (keeps_change fun _ => ⟨rfl, rfl⟩) fun _ =>
          Keeps.bind (keeps_checkpoint w hgood) fun _ => Keeps.pure _

theorem keeps_trySplit (hgood : Good plan c) (task : Task) : Keeps plan c (trySplit w settings task) := by
  refine Keeps.bind keeps_get fun r => ?_
  split
  · exact Keeps.pure _
  · refine Keeps.bind (keeps_perform _) fun steps => ?_
    split
    · exact Keeps.pure _
    · exact Keeps.bind (keeps_recordSplit task steps) fun _ => Keeps.bind (keeps_checkpoint w hgood) fun _ => Keeps.pure _

theorem keeps_startFromTheBaseline (hgood : Good plan c) (task : Task) (guidance : Option String) :
    Keeps plan c (startFromTheBaseline w task guidance) := by
  refine Keeps.bind (keeps_baseline w task) fun _ => Keeps.bind keeps_get fun r => ?_
  dsimp only
  split
  · exact Keeps.bind (keeps_undoAttempt w task _) fun _ => keeps_checkpoint w hgood
  · exact keeps_checkpoint w hgood

theorem ensures_runTaskFlow (hgood : Good plan c) (hnext : Next plan c task planned) (hunblocked : Unblocked task c)
    (name : String) :
    (runTaskFlow w task name planned).Ensures (Sound plan) (At plan c)
      fun outcome => Recorded plan c task (recorded planned outcome) := by
  unfold runTaskFlow
  split
  · exact Ensures.throw
  · have hlog : Ensures (Sound plan) (At plan c) (Procedure.log (fun r => .built task r.progress.completed) : QueueM Unit)
        fun _ => At plan c := by
      refine Ensures.log (fun r hr => ?_) fun _ hr => hr
      rw [hr.completed]
      exact hunblocked
    refine Ensures.bind hlog fun _ => Ensures.bind (keeps_ask _) fun result => ?_
    cases result with
    | error error =>
      dsimp only
      split
      · exact Ensures.throw
      · exact Ensures.pure fun _ h => h
    | ok output =>
      have hend : Ensures (Sound plan) (Recorded plan c task planned) (do
          change fun p => { p with current := none }
          checkpoint w
          pure .accepted : QueueM TaskOutcome) fun outcome => Recorded plan c task (recorded planned outcome) := by
        refine Ensures.bind (ensures_recorded hgood hnext fun _ _ => keeps_change fun _ => ⟨rfl, rfl⟩) fun _ => ?_
        refine Ensures.bind (ensures_recorded hgood hnext fun _ h => keeps_checkpoint w h) fun _ => ?_
        exact Ensures.pure fun _ h => h
      cases planned with
      | false => exact hend
      | true =>
        refine Ensures.bind (ensures_record ?_ fun _ => ⟨rfl, rfl⟩) fun _ => hend
        have hflow : (field (.object [("flow", .string name), ("result", output), ("task_id", .string task.id)])
          "flow").isSome = true := rfl
        have hid : field (.object [("flow", .string name), ("result", output), ("task_id", .string task.id)]) "task_id" =
          some task.id := rfl
        simp [settles, Task.owns, hflow, hid]

theorem ensures_runRounds (hgood : Good plan c) (hnext : Next plan c task planned) (hunblocked : Unblocked task c)
    (fuel : Nat) :
    (runRounds w settings task planned fuel).Ensures (Sound plan) (At plan c)
      fun outcome => Recorded plan c task (recorded planned outcome) := by
  induction fuel with
  | zero => exact Ensures.throw
  | succ fuel ih =>
    refine Ensures.bind (ensures_rounds w hgood hnext hunblocked _ _ _) fun round => ?_
    cases round with
    | settled outcome =>
      refine Ensures.pure fun _ h => ?_
      cases outcome with
      | accepted => simpa [settled, recorded] using h
      | failed reason => exact h
    | ended ended =>
      refine Ensures.bind keeps_get fun r => ?_
      dsimp only
      split
      · refine Ensures.bind (keeps_annotate _ _) fun _ => ?_
        exact Ensures.bind (keeps_checkpoint w hgood) fun _ => Ensures.pure fun _ h => h
      · refine Ensures.bind (keeps_undoAttempt w task _) fun _ => ?_
        refine Ensures.bind (keeps_checkpoint w hgood) fun _ => ?_
        refine Ensures.bind (keeps_trySplit w settings hgood task) fun again => ?_
        split
        · exact ih
        · exact Ensures.pure fun _ h => h

theorem ensures_runTask (hgood : Good plan c) (hnext : Next plan c task planned) (hunblocked : Unblocked task c)
    (guidance : Option String) :
    (runTask w settings task guidance planned).Ensures (Sound plan) (At plan c)
      fun outcome => Recorded plan c task (recorded planned outcome) := by
  unfold runTask
  split
  · exact ensures_runTaskFlow w hgood hnext hunblocked _
  · refine Ensures.bind (keeps_startFromTheBaseline w hgood task guidance) fun _ => ?_
    refine Ensures.bind (keeps_planTask w settings hgood task guidance) fun step => ?_
    cases step with
    | error question => exact Ensures.pure fun _ h => h
    | ok step =>
      refine Ensures.bind (keeps_ask _) fun check => Ensures.bind (keeps_change fun _ => ⟨rfl, rfl⟩) fun _ => ?_
      exact ensures_runRounds w settings hgood hnext hunblocked 2

theorem keeps_afterFailure (reason : String) : Keeps plan c (afterFailure w settings reason) := by
  unfold afterFailure
  split
  · exact keeps_throw _
  · exact Keeps.pure _
  · refine Keeps.bind (keeps_perform _) fun answer => ?_
    dsimp only
    split
    · exact Keeps.pure _
    · split
      · exact Keeps.pure _
      · split
        · exact Keeps.pure _
        · exact keeps_throw _

theorem ensures_skip (hgood : Good plan c) (hnext : Next plan c task planned) (reason : String) :
    (skip w task reason planned).Ensures (Sound plan) (At plan c) fun _ => Recorded plan c task planned := by
  have hend : Ensures (Sound plan) (Recorded plan c task planned) (do
      change fun p => { p with current := none, stepPlan := none }
      checkpoint w : QueueM Unit) fun _ => Recorded plan c task planned :=
    Ensures.bind (ensures_recorded hgood hnext fun _ _ => keeps_change fun _ => ⟨rfl, rfl⟩) fun _ =>
      ensures_recorded hgood hnext fun _ h => keeps_checkpoint w h
  cases planned with
  | false => exact Ensures.bind (keeps_change fun _ => ⟨rfl, rfl⟩) fun _ => hend
  | true => exact Ensures.bind (ensures_record (settles_skippedEntry task _) fun _ => ⟨rfl, rfl⟩) fun _ => hend

theorem ensures_tryTask (hgood : Good plan c) (hnext : Next plan c task planned) (hunblocked : Unblocked task c)
    (fuel : Nat) (guidance : Option String) :
    (tryTask w settings task planned fuel guidance).Ensures (Sound plan) (At plan c)
      fun _ => Recorded plan c task planned := by
  induction fuel generalizing guidance with
  | zero => exact Ensures.throw
  | succ fuel ih =>
    refine Ensures.bind (ensures_runTask w settings hgood hnext hunblocked guidance) fun outcome => ?_
    cases outcome with
    | accepted => exact Ensures.pure fun _ h => h
    | failed reason =>
      refine Ensures.bind (keeps_afterFailure w settings reason) fun decision => ?_
      cases decision with
      | retry notes => exact ih notes
      | skip => exact ensures_skip w hgood hnext reason
      | revisePlan changes => exact Ensures.throw

omit [CharTables] in
theorem unblocked_of_skippedDependency {p : Progress} (h : p.skippedDependency task = none) :
    Unblocked task p.completed := by
  intro id hid
  have hnot := List.find?_eq_none.mp h id hid
  simpa using hnot

theorem ensures_workOn (hgood : Good plan c) (hnext : Next plan c task planned) (fuel : Nat)
    (hplanned : planned = true → plan.tasks.find? (fun task =>
      !(c.map (field · "task_id")).contains (some task.id)) = some task)
    (hrepair : planned = false → task.dependsOn = []) :
    (workOn w settings fuel task planned).Ensures (Sound plan) (At plan c) fun _ => Recorded plan c task planned := by
  unfold workOn
  cases planned with
  | false =>
    have hunblocked : Unblocked task c := by
      intro id hid
      rw [hrepair rfl] at hid
      cases hid
    exact Ensures.bind keeps_get fun r => ensures_tryTask w settings hgood hnext hunblocked fuel none
  | true =>
    have hlog : Ensures (Sound plan) (At plan c)
        (Procedure.log (fun r => .started task r.progress.completed) : QueueM Unit) fun _ => At plan c := by
      refine Ensures.log (fun r hr => ?_) fun _ hr => hr
      rw [hr.completed]
      exact hplanned rfl
    refine Ensures.bind hlog fun _ => Ensures.bind Ensures.get fun r => ?_
    simp only [if_true]
    split
    · refine Ensures.weaken (P := At plan c) ?_ (fun _ h => h.2) fun _ _ h => h
      refine Ensures.bind (ensures_record (settles_skippedEntry task _) fun _ => ⟨rfl, rfl⟩) fun _ => ?_
      exact ensures_recorded hgood hnext fun _ h => keeps_checkpoint w h
    · rename_i hfree
      intro s hs
      obtain ⟨rfl, hat⟩ := hs
      have hunblocked := unblocked_of_skippedDependency hfree
      rw [hat.completed] at hunblocked
      exact ensures_tryTask w settings hgood hnext hunblocked fuel none _ hat

/-- Task by task: each is the next without an entry when its turn comes. -/
theorem ensures_workOnAll (hunique : (plan.tasks.map (·.id)).Nodup) (hgood : Good plan c) {tasks : List Task}
    (htasks : plan.tasks.drop c.length = tasks) (fuel : Nat) :
    (workOnAll w settings fuel tasks).Ensures (Sound plan) (At plan c)
      fun _ r => ∃ c', Good plan c' ∧ c'.length = plan.tasks.length ∧ At plan c' r := by
  induction tasks generalizing c with
  | nil =>
    have hall : plan.tasks.length ≤ c.length := drop_eq_nil_iff.mp htasks
    exact Ensures.pure fun r hr => ⟨c, hgood, Nat.le_antisymm hgood.length hall, hr⟩
  | cons task rest ih =>
    have hfirst : plan.tasks.find? (fun task => !(c.map (field · "task_id")).contains (some task.id)) = some task := by
      rw [hgood.find?_next hunique, htasks]
      rfl
    have hnext : Next plan c task true := fun _ => ⟨rest, htasks⟩
    refine Ensures.bind (ensures_workOn w settings hgood hnext fuel (fun _ => hfirst) (by simp)) fun _ => ?_
    rintro r ⟨done, hdone, hat⟩
    have hrest : plan.tasks.drop (c ++ [done]).length = rest := by
      rw [length_append, length_singleton, ← drop_drop, htasks]
      rfl
    exact ih (good_push hgood hnext hdone) hrest r hat

theorem ensures_repair (hgood : Good plan c) (hlength : c.length = plan.tasks.length) (fuel : Nat) {due : Option Task}
    (hdue : ∀ task, due = some task → task.dependsOn = []) :
    (repair w settings fuel due).Ensures (Sound plan) (At plan c)
      fun _ r => ∃ c', Good plan c' ∧ c'.length = plan.tasks.length ∧ At plan c' r := by
  cases due with
  | none => exact Ensures.pure fun _ h => ⟨c, hgood, hlength, h⟩
  | some task =>
    have hnext : Next plan c task false := fun h => by cases h
    have hwork := ensures_workOn w settings hgood hnext fuel (fun h => by cases h) fun _ => hdue task rfl
    refine Ensures.bind hwork fun _ => Ensures.bind (keeps_change fun _ => ⟨rfl, rfl⟩) fun _ => ?_
    exact (keeps_checkpoint w hgood).post fun _ r hr => ⟨c, hgood, hlength, hr⟩

theorem ensures_workThrough (hunique : (plan.tasks.map (·.id)).Nodup) (hgood : Good plan c) (fuel : Nat) :
    (workThrough w settings fuel plan).Ensures (Sound plan) (At plan c)
      fun _ r => ∃ c', Good plan c' ∧ c'.length = plan.tasks.length ∧ At plan c' r := by
  refine Ensures.bind Ensures.get fun start => ?_
  rintro r ⟨rfl, hat⟩
  have hdrop : plan.tasks.drop c.length = plan.tasks.drop start.progress.completed.length := by rw [hat.completed]
  refine Ensures.bind (f := fun _ => repair w settings fuel (repairTask start.progress))
    (R := fun _ r => ∃ c', Good plan c' ∧ c'.length = plan.tasks.length ∧ At plan c' r)
    (ensures_workOnAll w settings hunique hgood hdrop fuel) (fun _ => ?_) start hat
  rintro s ⟨c', hgood', hlength, hat'⟩
  refine ensures_repair w settings hgood' hlength fuel (fun task hdue => ?_) s hat'
  obtain ⟨instructions, -, rfl⟩ := Option.map_eq_some_iff.mp hdue
  rfl

variable [Externals]

theorem absorb_frame (feedback : List StepFeedback) (plan : Plan) (p : Progress) :
    (absorb feedback plan p).plan = p.plan ∧ ∃ n, (absorb feedback plan p).completed = p.completed.take n := by
  have hchanges : ∀ q, (queueUserChanges feedback q).plan = q.plan ∧
      (queueUserChanges feedback q).completed = q.completed := by
    intro q
    unfold queueUserChanges
    dsimp only
    split <;> exact ⟨rfl, rfl⟩
  have hreopened : (reopenAfterRejection feedback plan p).plan = p.plan ∧
      ∃ n, (reopenAfterRejection feedback plan p).completed = p.completed.take n := by
    unfold reopenAfterRejection
    dsimp only
    split
    · exact ⟨rfl, p.completed.length, take_length.symm⟩
    · split
      · exact ⟨rfl, _, rfl⟩
      · exact ⟨rfl, p.completed.length, take_length.symm⟩
  obtain ⟨hplan, n, hcompleted⟩ := hreopened
  exact ⟨(hchanges _).1.trans hplan, n, (hchanges _).2.trans hcompleted⟩

theorem good_absorb {start : Progress} (hplan : start.plan = some plan) (hgood : Good plan start.completed)
    (feedback : List StepFeedback) :
    (absorb feedback plan start).plan = some plan ∧ Good plan (absorb feedback plan start).completed := by
  obtain ⟨hsame, n, hcompleted⟩ := absorb_frame feedback plan start
  rw [hcompleted]
  exact ⟨hsame.trans hplan, hgood.take n⟩

/-- The whole run, from the checkpoint and the feedback on. -/
theorem sound_runQueue (hunique : (plan.tasks.map (·.id)).Nodup) {start : Progress} (hplan : start.plan = some plan)
    (hgood : Good plan start.completed) (fuel : Nat) (feedback : List StepFeedback) :
    ∀ event ∈ (runQueue w settings fuel feedback plan ⟨start, 0⟩).2.2, Sound plan event := by
  obtain ⟨hplan', hgood'⟩ := good_absorb hplan hgood feedback
  have hrun : (runQueue w settings fuel feedback plan).Ensures (Sound plan) (fun r => r.progress = start)
      fun _ r => ∃ c', Good plan c' ∧ c'.length = plan.tasks.length ∧ At plan c' r := by
    have hread : Ensures (Sound plan) (fun r => r.progress = start) (change (absorb feedback plan))
        fun _ => At plan (absorb feedback plan start).completed := by
      refine Ensures.modify fun r hr => ?_
      rw [← hr] at hplan' ⊢
      exact ⟨hplan', rfl⟩
    refine Ensures.bind hread fun _ => Ensures.bind (keeps_checkpoint w hgood') fun _ => ?_
    exact ensures_workThrough w settings hunique hgood' fuel
  exact (hrun ⟨start, 0⟩ rfl).1

omit [CharTables] [Externals] in
theorem checkpoint_apply (r : Run) :
    checkpoint w r = (w.commit r.calls, { r with calls := r.calls + 1 }, [.checkpoint r.progress]) := rfl

theorem runQueue_starts {start : Progress} {feedback : List StepFeedback} {rest : List Task}
    (hnext : plan.tasks.drop (absorb feedback plan start).completed.length = task :: rest) (fuel : Nat) :
    (runQueue w settings fuel feedback plan ⟨start, 0⟩).2.2 = [.checkpoint (absorb feedback plan start)] ∨
      [.checkpoint (absorb feedback plan start), .started task (absorb feedback plan start).completed] <+:
        (runQueue w settings fuel feedback plan ⟨start, 0⟩).2.2 := by
  have hchange : change (absorb feedback plan) ⟨start, 0⟩ = (.ok (), ⟨absorb feedback plan start, 0⟩, []) := rfl
  unfold runQueue
  rw [bind_apply, hchange]
  dsimp only
  rw [bind_apply, checkpoint_apply]
  cases w.commit 0 with
  | error e => exact .inl rfl
  | ok u =>
    refine .inr ?_
    dsimp only
    rw [nil_append, singleton_append, cons_prefix_cons]
    refine ⟨rfl, ?_⟩
    unfold workThrough
    rw [bind_apply]
    dsimp only [Procedure.get]
    rw [hnext, nil_append]
    refine List.IsPrefix.trans ?_ (log_grows _ _ _)
    unfold workOnAll
    refine List.IsPrefix.trans ?_ (log_grows _ _ _)
    unfold workOn
    rw [if_pos rfl]
    exact log_grows (Procedure.log fun r : Run => Event.started task r.progress.completed) _ ⟨absorb feedback plan start, 1⟩

end Queue

inductive Reached [Externals] (plan : Plan) : Progress → Prop where
  | run {checkpoint : Option Progress} (hfrom : ∀ p, checkpoint = some p → Reached plan p) {start : Progress}
      (hread : readProgress checkpoint plan = .ok start) {w : World} {settings : TaskQueueConfig} {fuel : Nat}
      {feedback : List StepFeedback} {saved : Progress}
      (hsaved : .checkpoint saved ∈ (Queue.runQueue w settings fuel feedback plan ⟨start, 0⟩).2.2) : Reached plan saved

theorem good_of_readProgress {checkpoint : Option Progress} {start : Progress}
    (h : readProgress checkpoint plan = .ok start) : start.plan = some plan ∧ Good plan start.completed := by
  unfold readProgress at h
  dsimp only at h
  split at h
  · cases h
  · rename_i hmatches
    cases h
    exact checkMatchesPlan_iff.mp hmatches

theorem good_nil (plan : Plan) : Good plan [] := ⟨Nat.zero_le _, by simp⟩

theorem start_matches [Externals] (hunique : (plan.tasks.map (·.id)).Nodup) {checkpoint : Option Progress}
    (hfrom : ∀ p, checkpoint = some p → Reached plan p) :
    checkMatchesPlan (checkpoint.getD { plan := some plan }) plan = .ok () := by
  cases checkpoint with
  | none => exact checkMatchesPlan_iff.mpr ⟨rfl, good_nil plan⟩
  | some p =>
    cases hfrom p rfl with
    | run hfrom hread hsaved =>
      obtain ⟨hstart, hgood⟩ := good_of_readProgress hread
      exact Queue.sound_runQueue _ _ hunique hstart hgood _ _ _ hsaved

/-- Every run can be resumed. A run starts without a checkpoint or from one that a run for the same plan made: the
    checkpoint is accepted as it is, and its entries are of the first tasks of the plan in order. Whatever the
    outside answers and whatever the feedback, the run goes on with the first task that has no entry, starts each
    planned task when it is the first without one, and builds no task that depends on a skipped one. -/
theorem checkpoints_resume [Externals] (hplan : checkPlan plan = .ok ()) {checkpoint : Option Progress}
    (hfrom : ∀ p, checkpoint = some p → Reached plan p) :
    let start := checkpoint.getD { plan := some plan }
    readProgress checkpoint plan = .ok start ∧
      start.completed.map (field · "task_id") =
        (plan.tasks.take start.completed.length).map (fun task => some task.id) ∧
      ∀ (w : World) (settings : TaskQueueConfig) (fuel : Nat) (feedback : List StepFeedback),
        let events := (Queue.runQueue w settings fuel feedback plan ⟨start, 0⟩).2.2
        (∀ task completed, .built task completed ∈ events → ∀ id ∈ task.dependsOn,
          (completed.any fun done => flag done "skipped" && field done "task_id" == some id) = false) ∧
        (∀ task completed, .started task completed ∈ events →
          plan.tasks.find? (fun task => !(completed.map (field · "task_id")).contains (some task.id)) = some task) ∧
        ∀ task, plan.tasks.find? (fun task =>
            !((absorb feedback plan start).completed.map (field · "task_id")).contains (some task.id)) = some task →
          events = [.checkpoint (absorb feedback plan start)] ∨
            [.checkpoint (absorb feedback plan start), .started task (absorb feedback plan start).completed] <+: events := by
  have hunique := nodup_of_checkPlan hplan
  have hmatches := start_matches hunique hfrom
  obtain ⟨hsame, hgood⟩ := checkMatchesPlan_iff.mp hmatches
  refine ⟨?_, hgood.ids, fun w settings fuel feedback => ⟨?_, ?_, ?_⟩⟩
  · simp only [readProgress, hmatches]
  · intro task completed hbuilt
    exact Queue.sound_runQueue w settings hunique hsame hgood fuel feedback _ hbuilt
  · intro task completed hstarted
    exact Queue.sound_runQueue w settings hunique hsame hgood fuel feedback _ hstarted
  · intro task hfirst
    obtain ⟨-, hgood'⟩ := Queue.good_absorb hsame hgood feedback
    rw [hgood'.find?_next hunique, List.head?_eq_some_iff] at hfirst
    obtain ⟨rest, hrest⟩ := hfirst
    exact Queue.runQueue_starts w settings hrest fuel

end

end TaskQueue

section

open Sample TaskQueue

namespace Sample

def queuePlan : Plan where
  status := "ready"
  requirements := [⟨"R1", "change", [⟨"C1", "observable"⟩]⟩]
  tasks := [⟨"T1", ["R1"], ["C1"], [], "implement", none⟩, ⟨"T2", ["R1"], ["C1"], ["T1"], "extend", none⟩]
  summary := "plan"

def blockedWorld : World where
  build _ := .ok (.replied (.object [("status", .string "blocked_user"), ("summary", .string "which key?")]))
  review _ := .ok .null
  planTask _ := .ok (.plan "")
  splitTask _ := .ok []
  fingerprint _ := []
  snapshot _ := none
  isSnapshot _ := false
  undo _ _ := none
  checkBefore _ errors := errors
  checkAfter _ := ⟨[], none, []⟩
  validate _ _ := .ok ()
  subflows := false
  flow _ := .ok .null
  respond _ := .ok ("skip", none)
  cancelled _ := false
  commit _ := .ok ()

def askingQueue : TaskQueueConfig where
  planPointer := "/plan"
  reviewProfile := ⟨"reviewer", none⟩
  reviewInstructions := "Review."
  maxRepairs := 1

def bothSkipped : TaskQueue.Progress where
  plan := some queuePlan
  completed := [Queue.skippedEntry queuePlan.tasks[0] "Task T1 stopped because it needs something from you: which key?",
    Queue.skippedEntry queuePlan.tasks[1] "Task T2 builds on T1, which was skipped, so it was not built."]

end Sample

/-- The user skips a task, so the task that builds on it is skipped as well; the last checkpoint resumes. -/
theorem checkpoints_resume_skipped : checkPlan queuePlan = .ok () ∧ Reached queuePlan bothSkipped ∧
    readProgress (some bothSkipped) queuePlan = .ok bothSkipped := by
  have hlast : (Queue.runQueue blockedWorld askingQueue 2 [] queuePlan ⟨{ plan := some queuePlan }, 0⟩).2.2.getLast? =
      some (.checkpoint bothSkipped) := by rfl
  have hfrom : ∀ p, (none : Option TaskQueue.Progress) = some p → Reached queuePlan p := by simp
  have hreached : Reached queuePlan bothSkipped := .run hfrom rfl (mem_of_getLast? hlast)
  have hresumed : ∀ p, some bothSkipped = some p → Reached queuePlan p := fun p hp => Option.some.inj hp ▸ hreached
  exact ⟨rfl, hreached, (checkpoints_resume rfl hresumed).1⟩

end

end RustyCore

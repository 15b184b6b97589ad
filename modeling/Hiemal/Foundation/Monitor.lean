import Hiemal.Foundation.Transition
import Mathlib.Logic.Function.Basic

/-!
# Objects whose methods run under one mutex

A method reads a fixed part of the shared object, takes the mutex, executes its
statements one by one, gives the mutex back and returns. Any number of threads call
such methods; between two statements of one thread the others may take any steps of
theirs.

The calls then behave as if each were made at once at the moment it takes the mutex:
a run of the threads has the same answers, puts out the same, and leaves the same
object as the calls made one after the other in the order in which they took it.
-/

namespace Hiemal
namespace Foundation

variable {Shared Fixed Call Env Reply Out Thread : Type*}

/-- A statement of a critical section: it changes the shared object and the variables
of the calling thread, and puts something out. -/
abbrev Statement (Shared Env Out : Type*) :=
  Shared → Env → Shared × Env × List Out

/-- How a call begins, before it takes the mutex. -/
inductive Entry (Shared Env Out : Type*)
  /-- It returns without taking the mutex. -/
  | skip (env : Env)
  /-- It takes the mutex to execute the statements. -/
  | critical (env : Env) (body : List (Statement Shared Env Out))

/-- Methods that share an object. What they read without holding the mutex is the
fixed part of the object, which no method changes. -/
structure Monitor (Shared Fixed Call Env Reply Out : Type*) where
  fixed : Shared → Fixed
  enter : Fixed → Call → Entry Shared Env Out
  /-- Take the mutex; `none` if it is held. -/
  lock : Shared → Option Shared
  unlock : Shared → Shared
  /-- What a call returns, read after the mutex was given back. -/
  leave : Fixed → Env → Reply
  /-- Put out when the mutex is taken. -/
  lockOut : List Out
  /-- Put out when the mutex is given back. -/
  unlockOut : List Out
  lock_held : ∀ {shared held}, lock shared = some held → lock held = none
  lock_unlock : ∀ shared, (lock (unlock shared)).isSome
  fixed_lock : ∀ {shared held}, lock shared = some held → fixed held = fixed shared
  fixed_unlock : ∀ shared, fixed (unlock shared) = fixed shared
  /-- No statement gives the mutex back. -/
  lock_body : ∀ {known call env body}, enter known call = .critical env body →
    ∀ statement ∈ body, ∀ shared env, lock shared = none →
      lock (statement shared env).1 = none
  fixed_body : ∀ {known call env body}, enter known call = .critical env body →
    ∀ statement ∈ body, ∀ shared env,
      fixed (statement shared env).1 = fixed shared

/-- Execute statements one after the other, collecting what they put out. -/
def runBody :
    List (Statement Shared Env Out) → Shared → Env → Shared × Env × List Out
  | [], shared, env => (shared, env, [])
  | statement :: body, shared, env =>
      let (shared, env, first) := statement shared env
      let (shared, env, later) := runBody body shared env
      (shared, env, first ++ later)

/-- Statements executed in two parts. -/
theorem runBody_append
    (first second : List (Statement Shared Env Out))
    (shared : Shared)
    (env : Env) :
    runBody (first ++ second) shared env =
      let (shared, env, out) := runBody first shared env
      let (shared, env, later) := runBody second shared env
      (shared, env, out ++ later) := by
  induction first generalizing shared env with
  | nil => rfl
  | cons statement first inductionHypothesis =>
      simp only [List.cons_append, runBody, inductionHypothesis, List.append_assoc]

/-- The answer to a call. -/
structure Answer (Thread Reply Out : Type*) where
  thread : Thread
  reply : Reply
  /-- Put out while the call held the mutex. -/
  out : List Out

/-- Where a thread is in its calls. -/
inductive Phase (Shared Call Env Out : Type*)
  | idle
  /-- About to take the mutex. -/
  | waiting (call : Call) (env : Env) (body : List (Statement Shared Env Out))
  /-- Holding the mutex, with the statements still to be executed. -/
  | inside (env : Env) (body : List (Statement Shared Env Out))
  /-- About to return. -/
  | leaving (env : Env)

/-- The thread holds the mutex. -/
def Phase.Inside : Phase Shared Call Env Out → Prop
  | .inside _ _ => True
  | _ => False

/-- The calls invoked that have not taken the mutex yet. -/
def Phase.pending : Phase Shared Call Env Out → List Call
  | .waiting call _ _ => [call]
  | _ => []

/-- An object and the threads that call its methods. -/
structure MonitorSystem (Thread Shared Call Env Out : Type*) where
  shared : Shared
  phase : Thread → Phase Shared Call Env Out

/-- One step of a thread. -/
inductive MonitorAction (Thread Call : Type*)
  | invoke (thread : Thread) (call : Call)
  | lock (thread : Thread)
  /-- Execute the next statement. -/
  | advance (thread : Thread)
  | unlock (thread : Thread)
  | leave (thread : Thread)

/-- What a step does. -/
inductive MonitorEvent (Thread Call Reply Out : Type*)
  /-- A call begins that will take the mutex. -/
  | invoked (thread : Thread) (call : Call)
  /-- A call begins that returns without the mutex. -/
  | passed (thread : Thread) (call : Call)
  | locked (thread : Thread) (call : Call) (out : List Out)
  | advanced (thread : Thread) (out : List Out)
  | left (thread : Thread) (reply : Reply)

section Events

/-- The thread that takes the step. -/
def MonitorEvent.thread : MonitorEvent Thread Call Reply Out → Thread
  | .invoked thread _ => thread
  | .passed thread _ => thread
  | .locked thread _ _ => thread
  | .advanced thread _ => thread
  | .left thread _ => thread

/-- The call that the step puts in its place among the others. -/
def MonitorEvent.request :
    MonitorEvent Thread Call Reply Out → Option (Thread × Call)
  | .passed thread call => some (thread, call)
  | .locked thread call _ => some (thread, call)
  | _ => none

def MonitorEvent.out : MonitorEvent Thread Call Reply Out → List Out
  | .locked _ _ out => out
  | .advanced _ out => out
  | _ => []

/-- The calls in the order in which they took the mutex. -/
def requests
    (events : List (MonitorEvent Thread Call Reply Out)) : List (Thread × Call) :=
  events.filterMap MonitorEvent.request

/-- Everything put out under the mutex. -/
def emitted (events : List (MonitorEvent Thread Call Reply Out)) : List Out :=
  events.flatMap MonitorEvent.out

variable (events : List (MonitorEvent Thread Call Reply Out))
variable (event : MonitorEvent Thread Call Reply Out)

@[simp] theorem requests_concat :
    requests (events ++ [event]) = requests events ++ event.request.toList := by
  cases request : event.request <;> simp [requests, request]

@[simp] theorem emitted_concat :
    emitted (events ++ [event]) = emitted events ++ event.out := by
  simp [emitted]

variable [DecidableEq Thread]

/-- The call that the thread begins. -/
def MonitorEvent.callBy (thread : Thread) :
    MonitorEvent Thread Call Reply Out → Option Call
  | .invoked other call => if other = thread then some call else none
  | .passed other call => if other = thread then some call else none
  | _ => none

/-- What the thread gets back. -/
def MonitorEvent.replyTo (thread : Thread) :
    MonitorEvent Thread Call Reply Out → Option Reply
  | .left other reply => if other = thread then some reply else none
  | _ => none

/-- The calls that a thread began. -/
def callsBy
    (thread : Thread)
    (events : List (MonitorEvent Thread Call Reply Out)) : List Call :=
  events.filterMap (MonitorEvent.callBy thread)

/-- What a thread got back. -/
def repliesTo
    (thread : Thread)
    (events : List (MonitorEvent Thread Call Reply Out)) : List Reply :=
  events.filterMap (MonitorEvent.replyTo thread)

/-- The calls of one thread among those of all. -/
def requestsOf
    (thread : Thread)
    (requests : List (Thread × Call)) : List Call :=
  requests.filterMap fun request =>
    if request.1 = thread then some request.2 else none

/-- The answers to one thread among those to all. -/
def answersTo
    (thread : Thread)
    (answers : List (Answer Thread Reply Out)) : List Reply :=
  answers.filterMap fun answer =>
    if answer.thread = thread then some answer.reply else none

@[simp] theorem callsBy_concat (thread : Thread) :
    callsBy thread (events ++ [event]) =
      callsBy thread events ++ (event.callBy thread).toList := by
  cases call : event.callBy thread <;> simp [callsBy, call]

@[simp] theorem repliesTo_concat (thread : Thread) :
    repliesTo thread (events ++ [event]) =
      repliesTo thread events ++ (event.replyTo thread).toList := by
  cases reply : event.replyTo thread <;> simp [repliesTo, reply]

@[simp] theorem requestsOf_append
    (thread : Thread)
    (first second : List (Thread × Call)) :
    requestsOf thread (first ++ second) =
      requestsOf thread first ++ requestsOf thread second :=
  List.filterMap_append

@[simp] theorem answersTo_append
    (thread : Thread)
    (first second : List (Answer Thread Reply Out)) :
    answersTo thread (first ++ second) =
      answersTo thread first ++ answersTo thread second :=
  List.filterMap_append

end Events

namespace Monitor

variable (monitor : Monitor Shared Fixed Call Env Reply Out)

/-! ## Calls made at once -/

/-- The rest of a call that holds the mutex: the object afterwards, the reply, and
what is put out until the mutex is given back. -/
def finish
    (shared : Shared)
    (env : Env)
    (body : List (Statement Shared Env Out)) : Shared × Reply × List Out :=
  let (shared, env, out) := runBody body shared env
  let shared := monitor.unlock shared
  (shared, monitor.leave (monitor.fixed shared) env, out ++ monitor.unlockOut)

/-- A call made at once; `none` if the mutex is held. -/
def serve
    (shared : Shared)
    (request : Thread × Call) :
    Option (Shared × Answer Thread Reply Out) :=
  match monitor.enter (monitor.fixed shared) request.2 with
  | .skip env =>
      some (shared,
        { thread := request.1
          reply := monitor.leave (monitor.fixed shared) env
          out := [] })
  | .critical env body =>
      (monitor.lock shared).map fun held =>
        let (after, reply, out) := monitor.finish held env body
        (after,
          { thread := request.1
            reply := reply
            out := monitor.lockOut ++ out })

/-! ## Steps of the threads -/

variable [DecidableEq Thread]

/-- The system after a step of one thread. -/
def moved
    (system : MonitorSystem Thread Shared Call Env Out)
    (thread : Thread)
    (shared : Shared)
    (phase : Phase Shared Call Env Out) :
    MonitorSystem Thread Shared Call Env Out where
  shared := shared
  phase := Function.update system.phase thread phase

/-- One step; `none` where the thread cannot take it. -/
def step (system : MonitorSystem Thread Shared Call Env Out) :
    MonitorAction Thread Call →
      Option (MonitorSystem Thread Shared Call Env Out ×
        MonitorEvent Thread Call Reply Out)
  | .invoke thread call =>
      match system.phase thread with
      | .idle =>
          match monitor.enter (monitor.fixed system.shared) call with
          | .skip env =>
              some (moved system thread system.shared (.leaving env),
                .passed thread call)
          | .critical env body =>
              some (moved system thread system.shared (.waiting call env body),
                .invoked thread call)
      | _ => none
  | .lock thread =>
      match system.phase thread with
      | .waiting call env body =>
          (monitor.lock system.shared).map fun held =>
            (moved system thread held (.inside env body),
              .locked thread call monitor.lockOut)
      | _ => none
  | .advance thread =>
      match system.phase thread with
      | .inside env (statement :: body) =>
          let (shared, env, out) := statement system.shared env
          some (moved system thread shared (.inside env body), .advanced thread out)
      | _ => none
  | .unlock thread =>
      match system.phase thread with
      | .inside env [] =>
          some (moved system thread (monitor.unlock system.shared) (.leaving env),
            .advanced thread monitor.unlockOut)
      | _ => none
  | .leave thread =>
      match system.phase thread with
      | .leaving env =>
          some (moved system thread system.shared .idle,
            .left thread (monitor.leave (monitor.fixed system.shared) env))
      | _ => none


/-! ## The object as its threads find it -/

variable {monitor}

/-- The statements are the last ones of a call that begins as the object says. -/
def Rest
    (monitor : Monitor Shared Fixed Call Env Reply Out)
    (known : Fixed)
    (body : List (Statement Shared Env Out)) : Prop :=
  ∃ call env done, monitor.enter known call = .critical env (done ++ body)

section Rest

variable {known : Fixed} {statement : Statement Shared Env Out}
variable {body : List (Statement Shared Env Out)}

omit [DecidableEq Thread] in
theorem Rest.of_enter
    {call : Call}
    {env : Env}
    (enters : monitor.enter known call = .critical env body) :
    monitor.Rest known body :=
  ⟨call, env, [], enters⟩

theorem Rest.tail (rest : monitor.Rest known (statement :: body)) :
    monitor.Rest known body := by
  obtain ⟨call, env, done, enters⟩ := rest
  refine ⟨call, env, done ++ [statement], ?_⟩
  rw [enters, List.append_assoc, List.singleton_append]

/-- The next statement keeps the mutex held. -/
theorem Rest.lock_head
    (rest : monitor.Rest known (statement :: body))
    {shared : Shared}
    (locked : monitor.lock shared = none)
    (env : Env) :
    monitor.lock (statement shared env).1 = none := by
  obtain ⟨call, first, done, enters⟩ := rest
  exact monitor.lock_body enters statement (by simp) shared env locked

/-- The next statement leaves the fixed part as it is. -/
theorem Rest.fixed_head
    (rest : monitor.Rest known (statement :: body))
    (shared : Shared)
    (env : Env) :
    monitor.fixed (statement shared env).1 = monitor.fixed shared := by
  obtain ⟨call, first, done, enters⟩ := rest
  exact monitor.fixed_body enters statement (by simp) shared env

/-- So do all of them. -/
theorem Rest.fixed_runBody
    (rest : monitor.Rest known body)
    (shared : Shared)
    (env : Env) :
    monitor.fixed (runBody body shared env).1 = monitor.fixed shared := by
  induction body generalizing shared env with
  | nil => rfl
  | cons statement body inductionHypothesis =>
      rw [runBody, inductionHypothesis rest.tail]
      exact rest.fixed_head shared env

theorem Rest.fixed_finish
    (rest : monitor.Rest known body)
    (shared : Shared)
    (env : Env) :
    monitor.fixed (monitor.finish shared env body).1 = monitor.fixed shared := by
  rw [finish, monitor.fixed_unlock]
  exact rest.fixed_runBody shared env

end Rest

/-- What is left to do once the next statement is executed. -/
theorem finish_cons
    (shared : Shared)
    (env : Env)
    (statement : Statement Shared Env Out)
    (body : List (Statement Shared Env Out)) :
    monitor.finish shared env (statement :: body) =
      ((monitor.finish (statement shared env).1 (statement shared env).2.1 body).1,
        (monitor.finish (statement shared env).1 (statement shared env).2.1
          body).2.1,
        (statement shared env).2.2 ++
          (monitor.finish (statement shared env).1 (statement shared env).2.1
            body).2.2) := by
  simp only [finish, runBody, List.append_assoc]

/-- The object that the threads leave when the one inside, if any, has finished, and
what that thread still puts out. At most one thread is inside, and then the mutex is
held. -/
inductive Settles
    (monitor : Monitor Shared Fixed Call Env Reply Out)
    (system : MonitorSystem Thread Shared Call Env Out) :
    Shared → List Out → Prop
  | free
      (outside : ∀ thread, ¬(system.phase thread).Inside)
      (unlocked : (monitor.lock system.shared).isSome) :
      Settles monitor system system.shared []
  | held
      {thread : Thread} {env : Env} {body : List (Statement Shared Env Out)}
      (inside : system.phase thread = .inside env body)
      (alone : ∀ other, (system.phase other).Inside → other = thread)
      (locked : monitor.lock system.shared = none) :
      Settles monitor system (monitor.finish system.shared env body).1
        (monitor.finish system.shared env body).2.2

/-- The replies that a thread is about to get. -/
def owed
    (monitor : Monitor Shared Fixed Call Env Reply Out)
    (shared : Shared) : Phase Shared Call Env Out → List Reply
  | .inside env body => [(monitor.finish shared env body).2.1]
  | .leaving env => [monitor.leave (monitor.fixed shared) env]
  | _ => []

/-- A phase that fits the fixed part of the object. -/
def Fits
    (monitor : Monitor Shared Fixed Call Env Reply Out)
    (known : Fixed) : Phase Shared Call Env Out → Prop
  | .waiting call env body => monitor.enter known call = .critical env body
  | .inside _ body => monitor.Rest known body
  | _ => True

/-- The calls made at once, in the order in which they took the mutex, account for
what the threads have done so far. -/
structure Accounts
    (monitor : Monitor Shared Fixed Call Env Reply Out)
    (start : Shared)
    (system : MonitorSystem Thread Shared Call Env Out)
    (events : List (MonitorEvent Thread Call Reply Out))
    (settled : Shared)
    (answers : List (Answer Thread Reply Out)) : Prop where
  served : runSteps monitor.serve start (requests events) = some (settled, answers)
  settles : ∃ due, monitor.Settles system settled due ∧
    answers.flatMap Answer.out = emitted events ++ due
  calls : ∀ thread,
    requestsOf thread (requests events) ++ (system.phase thread).pending =
      callsBy thread events
  replies : ∀ thread,
    answersTo thread answers =
      repliesTo thread events ++ monitor.owed system.shared (system.phase thread)
  fits : ∀ thread, monitor.Fits (monitor.fixed system.shared) (system.phase thread)

/-! ## One step -/

section Steps

variable {start settled : Shared}
variable {system next : MonitorSystem Thread Shared Call Env Out}
variable {events : List (MonitorEvent Thread Call Reply Out)}
variable {event : MonitorEvent Thread Call Reply Out}
variable {answers : List (Answer Thread Reply Out)}
variable {thread : Thread} {call : Call} {env : Env}
variable {body : List (Statement Shared Env Out)}

theorem moved_shared
    (shared : Shared)
    (phase : Phase Shared Call Env Out) :
    (moved system thread shared phase).shared = shared := rfl

theorem moved_phase_self
    (shared : Shared)
    (phase : Phase Shared Call Env Out) :
    (moved system thread shared phase).phase thread = phase := by
  simp only [moved, Function.update_self]

theorem moved_phase_ne
    {other : Thread}
    (different : other ≠ thread)
    (shared : Shared)
    (phase : Phase Shared Call Env Out) :
    (moved system thread shared phase).phase other = system.phase other := by
  simp only [moved, Function.update_of_ne different]

/-- Finishing keeps the fixed part of the object. -/
theorem Accounts.fixed_settled
    (accounts : monitor.Accounts start system events settled answers) :
    monitor.fixed settled = monitor.fixed system.shared := by
  obtain ⟨due, settles, _⟩ := accounts.settles
  cases settles with
  | free => rfl
  | @held holder env body inside alone locked =>
      have fits := accounts.fits holder
      rw [inside] at fits
      exact Rest.fixed_finish fits system.shared env

/-- A thread that stays outside changes nothing for the one inside. -/
theorem Settles.moved_outside
    {due : List Out}
    (settles : monitor.Settles system settled due)
    (before : ¬(system.phase thread).Inside)
    {phase : Phase Shared Call Env Out}
    (after : ¬phase.Inside) :
    monitor.Settles (moved system thread system.shared phase) settled due := by
  cases settles with
  | free outside unlocked =>
      apply Settles.free
      · intro other
        by_cases same : other = thread
        · rw [same, moved_phase_self]
          exact after
        · rw [moved_phase_ne same]
          exact outside other
      · exact unlocked
  | @held holder env body inside alone locked =>
      have different : holder ≠ thread := by
        rintro rfl
        exact before (by rw [inside]; trivial)
      have stays :
          (moved system thread system.shared phase).phase holder =
            .inside env body := by
        rw [moved_phase_ne different, inside]
      refine .held stays ?_ locked
      · intro other otherInside
        by_cases same : other = thread
        · rw [same, moved_phase_self] at otherInside
          exact absurd otherInside after
        · rw [moved_phase_ne same] at otherInside
          exact alone other otherInside

/-- What a thread that is outside is owed depends on the fixed part only. -/
theorem owed_of_outside
    {phase : Phase Shared Call Env Out}
    (outside : ¬phase.Inside)
    {shared other : Shared}
    (same : monitor.fixed other = monitor.fixed shared) :
    monitor.owed other phase = monitor.owed shared phase := by
  cases phase with
  | inside env body => exact absurd trivial outside
  | leaving env => rw [owed, owed, same]
  | idle => rfl
  | waiting call env body => rfl

/-- Account for one more step, of a thread that does not disturb the one inside. -/
theorem Accounts.extend
    (accounts : monitor.Accounts start system events settled answers)
    {shared settledAfter : Shared}
    {phase : Phase Shared Call Env Out}
    {more : List (Answer Thread Reply Out)}
    {due : List Out}
    (author : event.thread = thread)
    (fixed : monitor.fixed shared = monitor.fixed system.shared)
    (undisturbed : ∀ other, other ≠ thread → (system.phase other).Inside →
      shared = system.shared)
    (served : runSteps monitor.serve start (requests (events ++ [event])) =
      some (settledAfter, answers ++ more))
    (mine : ∀ answer ∈ more, answer.thread = thread)
    (settles : monitor.Settles (moved system thread shared phase) settledAfter due)
    (out : (answers ++ more).flatMap Answer.out =
      emitted (events ++ [event]) ++ due)
    (calls : requestsOf thread event.request.toList ++ phase.pending =
      (system.phase thread).pending ++ (event.callBy thread).toList)
    (replies : monitor.owed system.shared (system.phase thread) ++
        answersTo thread more =
      (event.replyTo thread).toList ++ monitor.owed shared phase)
    (fits : monitor.Fits (monitor.fixed shared) phase) :
    monitor.Accounts start (moved system thread shared phase) (events ++ [event])
      settledAfter (answers ++ more) where
  served := served
  settles := ⟨due, settles, out⟩
  calls other := by
    rw [requests_concat, requestsOf_append, callsBy_concat]
    by_cases same : other = thread
    · rw [same, moved_phase_self, List.append_assoc, calls, ← List.append_assoc,
        accounts.calls]
    · have notMine : event.callBy other = none ∧
          requestsOf other event.request.toList = [] := by
        cases event <;> simp_all [MonitorEvent.thread, MonitorEvent.callBy,
          MonitorEvent.request, requestsOf, Ne.symm same]
      rw [moved_phase_ne same, notMine.1, notMine.2, List.append_nil,
        Option.toList_none, List.append_nil, accounts.calls]
  replies other := by
    rw [answersTo_append, repliesTo_concat, accounts.replies]
    by_cases same : other = thread
    · rw [same, moved_phase_self, moved_shared, List.append_assoc, replies,
        List.append_assoc]
    · have notMine : event.replyTo other = none ∧ answersTo other more = [] := by
        constructor
        · cases event <;> simp_all [MonitorEvent.thread, MonitorEvent.replyTo,
            Ne.symm same]
        · apply List.filterMap_eq_nil_iff.mpr
          intro answer member
          rw [mine answer member, if_neg (Ne.symm same)]
      have kept : monitor.owed shared (system.phase other) =
          monitor.owed system.shared (system.phase other) := by
        by_cases inside : (system.phase other).Inside
        · rw [undisturbed other same inside]
        · exact owed_of_outside inside fixed
      rw [moved_phase_ne same, moved_shared, notMine.1, notMine.2, List.append_nil,
        Option.toList_none, List.append_nil, kept]
  fits other := by
    by_cases same : other = thread
    · rw [same, moved_phase_self]
      exact fits
    · rw [moved_phase_ne same, moved, fixed]
      exact accounts.fits other

/-- A call that returns without the mutex. -/
theorem Accounts.skip
    (accounts : monitor.Accounts start system events settled answers)
    (idle : system.phase thread = .idle)
    (enters : monitor.enter (monitor.fixed system.shared) call = .skip env) :
    monitor.Accounts start (moved system thread system.shared (.leaving env))
      (events ++ [.passed thread call]) settled
      (answers ++
        [⟨thread, monitor.leave (monitor.fixed system.shared) env, []⟩]) := by
  obtain ⟨due, settles, out⟩ := accounts.settles
  have served : monitor.serve settled (thread, call) =
      some (settled,
        ⟨thread, monitor.leave (monitor.fixed system.shared) env, []⟩) := by
    simp only [serve, accounts.fixed_settled, enters]
  apply accounts.extend
  · rfl
  · rfl
  · intro other _ _
    rfl
  · rw [requests_concat]
    exact runSteps_concat accounts.served served
  · simp
  · apply settles.moved_outside
    · rw [idle]
      exact id
    · exact id
  · simp [out, MonitorEvent.out]
  · simp [idle, Phase.pending, MonitorEvent.request, MonitorEvent.callBy, requestsOf]
  · simp [idle, owed, MonitorEvent.replyTo, answersTo]
  · trivial

/-- A call that is going to take the mutex. -/
theorem Accounts.invoke
    (accounts : monitor.Accounts start system events settled answers)
    (idle : system.phase thread = .idle)
    (enters : monitor.enter (monitor.fixed system.shared) call =
      .critical env body) :
    monitor.Accounts start (moved system thread system.shared (.waiting call env body))
      (events ++ [.invoked thread call]) settled (answers ++ []) := by
  obtain ⟨due, settles, out⟩ := accounts.settles
  apply accounts.extend
  · rfl
  · rfl
  · intro other _ _
    rfl
  · simpa [MonitorEvent.request] using accounts.served
  · simp
  · apply settles.moved_outside
    · rw [idle]
      exact id
    · exact id
  · simp [out, MonitorEvent.out]
  · simp [idle, Phase.pending, MonitorEvent.request, MonitorEvent.callBy, requestsOf]
  · simp [idle, owed, MonitorEvent.replyTo, answersTo]
  · exact enters

/-- A thread that takes the mutex finds the object as the earlier calls leave it. -/
theorem Accounts.lock
    (accounts : monitor.Accounts start system events settled answers)
    (waiting : system.phase thread = .waiting call env body)
    {held : Shared}
    (locks : monitor.lock system.shared = some held) :
    monitor.Accounts start (moved system thread held (.inside env body))
      (events ++ [.locked thread call monitor.lockOut])
      (monitor.finish held env body).1
      (answers ++
        [⟨thread, (monitor.finish held env body).2.1,
          monitor.lockOut ++ (monitor.finish held env body).2.2⟩]) := by
  obtain ⟨due, settles, out⟩ := accounts.settles
  have enters := accounts.fits thread
  rw [waiting] at enters
  cases settles with
  | held inside alone locked =>
      rw [locks] at locked
      cases locked
  | free outside unlocked =>
      have served : monitor.serve system.shared (thread, call) =
          some ((monitor.finish held env body).1,
            ⟨thread, (monitor.finish held env body).2.1,
              monitor.lockOut ++ (monitor.finish held env body).2.2⟩) := by
        have begins : monitor.enter (monitor.fixed system.shared) call =
          .critical env body := enters
        simp only [serve, begins, locks, Option.map_some]
      apply accounts.extend
      · rfl
      · exact monitor.fixed_lock locks
      · intro other _ inside
        exact absurd inside (outside other)
      · rw [requests_concat]
        exact runSteps_concat accounts.served served
      · simp
      · refine .held (moved_phase_self held _) ?_ (monitor.lock_held locks)
        intro other inside
        by_contra different
        rw [moved_phase_ne different] at inside
        exact outside other inside
      · simp [out, MonitorEvent.out, moved_shared]
      · simp [waiting, Phase.pending, MonitorEvent.request, MonitorEvent.callBy,
          requestsOf]
      · simp [waiting, owed, MonitorEvent.replyTo, answersTo]
      · rw [Fits, monitor.fixed_lock locks]
        exact Rest.of_enter enters

/-- The thread inside executes its next statement. -/
theorem Accounts.advance
    {statement : Statement Shared Env Out}
    (accounts : monitor.Accounts start system events settled answers)
    (inside : system.phase thread = .inside env (statement :: body)) :
    monitor.Accounts start
      (moved system thread (statement system.shared env).1
        (.inside (statement system.shared env).2.1 body))
      (events ++ [.advanced thread (statement system.shared env).2.2]) settled
      (answers ++ []) := by
  obtain ⟨due, settles, out⟩ := accounts.settles
  have fits := accounts.fits thread
  rw [inside] at fits
  have rest : monitor.Rest (monitor.fixed system.shared) (statement :: body) := fits
  cases settles with
  | free outside unlocked =>
      exact absurd (by rw [inside]; trivial) (outside thread)
  | @held holder held heldBody holderInside alone locked =>
      obtain rfl : thread = holder := alone thread (by rw [inside]; trivial)
      rw [inside] at holderInside
      cases holderInside
      rw [finish_cons] at out accounts ⊢
      apply accounts.extend
      · rfl
      · exact rest.fixed_head system.shared env
      · intro other different otherInside
        exact absurd (alone other otherInside) different
      · simpa [MonitorEvent.request] using accounts.served
      · simp
      · refine .held (moved_phase_self _ _) ?_ (rest.lock_head locked env)
        intro other otherInside
        by_contra different
        rw [moved_phase_ne different] at otherInside
        exact different (alone other otherInside)
      · simpa [MonitorEvent.out, moved_shared] using out
      · simp [inside, Phase.pending, MonitorEvent.request, MonitorEvent.callBy,
          requestsOf]
      · simp [inside, owed, finish_cons, MonitorEvent.replyTo, answersTo]
      · rw [Fits, rest.fixed_head]
        exact rest.tail

/-- The thread inside gives the mutex back. -/
theorem Accounts.unlock
    (accounts : monitor.Accounts start system events settled answers)
    (inside : system.phase thread = .inside env []) :
    monitor.Accounts start
      (moved system thread (monitor.unlock system.shared) (.leaving env))
      (events ++ [.advanced thread monitor.unlockOut]) settled (answers ++ []) := by
  obtain ⟨due, settles, out⟩ := accounts.settles
  cases settles with
  | free outside unlocked =>
      exact absurd (by rw [inside]; trivial) (outside thread)
  | @held holder held heldBody holderInside alone locked =>
      obtain rfl : thread = holder := alone thread (by rw [inside]; trivial)
      rw [inside] at holderInside
      cases holderInside
      apply accounts.extend
      · rfl
      · exact monitor.fixed_unlock system.shared
      · intro other different otherInside
        exact absurd (alone other otherInside) different
      · simpa [MonitorEvent.request] using accounts.served
      · simp
      · apply Settles.free
        · intro other otherInside
          by_cases same : other = thread
          · rw [same, moved_phase_self] at otherInside
            exact otherInside
          · rw [moved_phase_ne same] at otherInside
            exact same (alone other otherInside)
        · exact monitor.lock_unlock system.shared
      · simpa [MonitorEvent.out, finish, runBody] using out
      · simp [inside, Phase.pending, MonitorEvent.request, MonitorEvent.callBy,
          requestsOf]
      · simp [inside, owed, finish, runBody, MonitorEvent.replyTo, answersTo]
      · trivial

/-- A call returns. -/
theorem Accounts.leave
    (accounts : monitor.Accounts start system events settled answers)
    (leaving : system.phase thread = .leaving env) :
    monitor.Accounts start (moved system thread system.shared .idle)
      (events ++
        [.left thread (monitor.leave (monitor.fixed system.shared) env)])
      settled (answers ++ []) := by
  obtain ⟨due, settles, out⟩ := accounts.settles
  apply accounts.extend
  · rfl
  · rfl
  · intro other _ _
    rfl
  · simpa [MonitorEvent.request] using accounts.served
  · simp
  · apply settles.moved_outside
    · rw [leaving]
      exact id
    · exact id
  · simp [out, MonitorEvent.out]
  · simp [leaving, Phase.pending, MonitorEvent.request, MonitorEvent.callBy,
      requestsOf]
  · simp [leaving, owed, MonitorEvent.replyTo, answersTo]
  · trivial

/-- Every step is accounted for. -/
theorem Accounts.step
    {action : MonitorAction Thread Call}
    (accounts : monitor.Accounts start system events settled answers)
    (stepped : monitor.step system action = some (next, event)) :
    ∃ settledAfter answersAfter,
      monitor.Accounts start next (events ++ [event]) settledAfter answersAfter := by
  cases action with
  | invoke thread call =>
      rw [Monitor.step] at stepped
      split at stepped
      · rename_i idle
        split at stepped
        · rename_i env enters
          cases stepped
          exact ⟨_, _, accounts.skip idle enters⟩
        · rename_i env body enters
          cases stepped
          exact ⟨_, _, accounts.invoke idle enters⟩
      · cases stepped
  | lock thread =>
      rw [Monitor.step] at stepped
      split at stepped
      · rename_i call env body waiting
        rw [Option.map_eq_some_iff] at stepped
        obtain ⟨held, locks, rfl, rfl⟩ := stepped
        exact ⟨_, _, accounts.lock waiting locks⟩
      · cases stepped
  | advance thread =>
      rw [Monitor.step] at stepped
      split at stepped
      · rename_i env statement body inside
        cases stepped
        exact ⟨_, _, accounts.advance inside⟩
      · cases stepped
  | unlock thread =>
      rw [Monitor.step] at stepped
      split at stepped
      · rename_i env inside
        cases stepped
        exact ⟨_, _, accounts.unlock inside⟩
      · cases stepped
  | leave thread =>
      rw [Monitor.step] at stepped
      split at stepped
      · rename_i env leaving
        cases stepped
        exact ⟨_, _, accounts.leave leaving⟩
      · cases stepped

end Steps

/-! ## Runs -/

/-- The system in which no thread has called a method yet. -/
def initial (start : Shared) : MonitorSystem Thread Shared Call Env Out where
  shared := start
  phase _ := .idle

section Runs

variable {start settled : Shared}
variable {system final : MonitorSystem Thread Shared Call Env Out}
variable {events later : List (MonitorEvent Thread Call Reply Out)}
variable {answers : List (Answer Thread Reply Out)}
variable {actions : List (MonitorAction Thread Call)}

theorem accounts_initial (unlocked : (monitor.lock start).isSome) :
    monitor.Accounts start (initial start)
      ([] : List (MonitorEvent Thread Call Reply Out)) start [] where
  served := rfl
  settles := ⟨[], .free (fun _ inside => inside) unlocked, rfl⟩
  calls _ := rfl
  replies _ := rfl
  fits _ := trivial

/-- Every run is accounted for. -/
theorem Accounts.run
    (accounts : monitor.Accounts start system events settled answers)
    (ran : runSteps monitor.step system actions = some (final, later)) :
    ∃ settledAfter answersAfter,
      monitor.Accounts start final (events ++ later) settledAfter
        answersAfter := by
  induction actions generalizing system events later settled answers with
  | nil =>
      cases ran
      rw [List.append_nil]
      exact ⟨settled, answers, accounts⟩
  | cons action actions inductionHypothesis =>
      obtain ⟨next, event, rest, stepped, restRan, rfl⟩ :=
        runSteps_cons_eq_some.mp ran
      obtain ⟨settledNext, answersNext, accountsNext⟩ := accounts.step stepped
      rw [List.append_cons]
      exact inductionHypothesis accountsNext restRan

omit [DecidableEq Thread] in
/-- Every call is answered to the thread that made it. -/
theorem serve_thread
    {shared after : Shared}
    {request : Thread × Call}
    {answer : Answer Thread Reply Out}
    (serves : monitor.serve shared request = some (after, answer)) :
    answer.thread = request.1 := by
  unfold serve at serves
  split at serves
  · cases serves
    rfl
  · rw [Option.map_eq_some_iff] at serves
    obtain ⟨held, locks, same⟩ := serves
    cases same
    rfl

omit [DecidableEq Thread] in
/-- A call made at once leaves the fixed part of the object as it is. -/
theorem fixed_serve
    {shared after : Shared}
    {request : Thread × Call}
    {answer : Answer Thread Reply Out}
    (serves : monitor.serve shared request = some (after, answer)) :
    monitor.fixed after = monitor.fixed shared := by
  unfold serve at serves
  split at serves
  · cases serves
    rfl
  · rename_i env body enters
    rw [Option.map_eq_some_iff] at serves
    obtain ⟨held, locks, same⟩ := serves
    cases same
    have rest := Rest.of_enter enters
    rw [← monitor.fixed_lock locks] at rest ⊢
    exact rest.fixed_finish held env

/-- So does all that the threads do. -/
theorem Accounts.fixed_eq
    (accounts : monitor.Accounts start system events settled answers) :
    monitor.fixed system.shared = monitor.fixed start := by
  rw [← accounts.fixed_settled]
  exact @runSteps_invariant _ _ _ monitor.serve
    (fun shared => monitor.fixed shared = monitor.fixed start) (fun _ => True)
    (fun shared request after answer same _ serves =>
      (fixed_serve serves).trans same)
    start settled (requests events) answers rfl (fun _ _ => trivial)
    accounts.served

/-- As many answers as calls for each thread. -/
theorem length_answersTo
    {requests : List (Thread × Call)}
    {after : Shared}
    (served : runSteps monitor.serve start requests = some (after, answers))
    (thread : Thread) :
    (answersTo thread answers).length = (requestsOf thread requests).length := by
  induction requests generalizing start answers with
  | nil =>
      cases served
      rfl
  | cons request requests inductionHypothesis =>
      obtain ⟨next, answer, rest, serves, restServed, rfl⟩ :=
        runSteps_cons_eq_some.mp served
      have rest := inductionHypothesis restServed
      have owner := serve_thread serves
      by_cases mine : request.1 = thread <;>
        simp_all [answersTo, requestsOf]

/-- What the threads do is what the calls made at once do, in the order in which they
took the mutex: an order in which the calls of each thread stand as it made them, and
in which a call stands between its beginning and its return. -/
structure Linearizes
    (monitor : Monitor Shared Fixed Call Env Reply Out)
    (start : Shared)
    (final : MonitorSystem Thread Shared Call Env Out)
    (events : List (MonitorEvent Thread Call Reply Out))
    (settled : Shared)
    (answers : List (Answer Thread Reply Out)) : Prop where
  served : runSteps monitor.serve start (requests events) = some (settled, answers)
  /-- Up to any moment, no call has its place before it began, and every call that
  has returned has it. -/
  between : ∀ before after, before ++ after = events → ∀ thread,
    requestsOf thread (requests before) <+: callsBy thread before ∧
      (repliesTo thread before).length ≤
        (requestsOf thread (requests before)).length
  /-- A thread gets the replies to its calls, in order. -/
  replies : ∀ thread, repliesTo thread events <+: answersTo thread answers
  /-- Nothing is put out between what one call puts out. -/
  out : emitted events <+: answers.flatMap Answer.out
  /-- A thread that is not in a call has had all its calls and replies. -/
  complete : ∀ thread, final.phase thread = .idle →
    requestsOf thread (requests events) = callsBy thread events ∧
      repliesTo thread events = answersTo thread answers
  /-- When no thread is inside, the object is as the calls leave it. -/
  quiet : (∀ thread, ¬(final.phase thread).Inside) →
    final.shared = settled ∧ emitted events = answers.flatMap Answer.out

theorem Accounts.between
    (accounts : monitor.Accounts start final events settled answers)
    (thread : Thread) :
    requestsOf thread (requests events) <+: callsBy thread events ∧
      (repliesTo thread events).length ≤
        (requestsOf thread (requests events)).length := by
  constructor
  · rw [← accounts.calls thread]
    exact List.prefix_append _ _
  · rw [← length_answersTo accounts.served thread, accounts.replies thread,
      List.length_append]
    exact Nat.le_add_right _ _

/-- **Methods under one mutex are linearizable.** -/
theorem linearizes
    (unlocked : (monitor.lock start).isSome)
    (ran : runSteps monitor.step (initial start) actions = some (final, events)) :
    ∃ settled answers, monitor.Linearizes start final events settled answers := by
  obtain ⟨settled, answers, accounts⟩ := (accounts_initial unlocked).run ran
  rw [List.nil_append] at accounts
  obtain ⟨due, settles, out⟩ := accounts.settles
  refine ⟨settled, answers, accounts.served, ?_, ?_, ?_, ?_, ?_⟩
  · rintro before after rfl thread
    obtain ⟨_, _, between, _, firstRan, _⟩ := runSteps_split ran
    obtain ⟨_, _, accountsBefore⟩ := (accounts_initial unlocked).run firstRan
    rw [List.nil_append] at accountsBefore
    exact accountsBefore.between thread
  · intro thread
    rw [accounts.replies thread]
    exact List.prefix_append _ _
  · rw [out]
    exact List.prefix_append _ _
  · intro thread idle
    have calls := accounts.calls thread
    have replies := accounts.replies thread
    rw [idle] at calls replies
    rw [Phase.pending, List.append_nil] at calls
    · rw [owed, List.append_nil] at replies
      · exact ⟨calls, replies.symm⟩
      · simp
      · simp
    · simp
  · intro outside
    cases settles with
    | free =>
        rw [List.append_nil] at out
        exact ⟨rfl, out.symm⟩
    | held inside alone locked =>
        exact absurd (by rw [inside]; trivial) (outside _)

/-- A thread begins the call that it invokes. -/
theorem step_callBy
    {action : MonitorAction Thread Call}
    {next : MonitorSystem Thread Shared Call Env Out}
    {event : MonitorEvent Thread Call Reply Out}
    {thread : Thread}
    {call : Call}
    (stepped : monitor.step system action = some (next, event))
    (began : event.callBy thread = some call) :
    action = .invoke thread call := by
  cases action with
  | invoke other called =>
      rw [step] at stepped
      split at stepped
      · split at stepped
        · cases stepped
          simp_all [MonitorEvent.callBy]
        · cases stepped
          simp_all [MonitorEvent.callBy]
      · cases stepped
  | lock other =>
      rw [step] at stepped
      split at stepped
      · rw [Option.map_eq_some_iff] at stepped
        obtain ⟨held, locks, rfl, rfl⟩ := stepped
        cases began
      · cases stepped
  | advance other =>
      rw [step] at stepped
      split at stepped
      · cases stepped
        cases began
      · cases stepped
  | unlock other =>
      rw [step] at stepped
      split at stepped
      · cases stepped
        cases began
      · cases stepped
  | leave other =>
      rw [step] at stepped
      split at stepped
      · cases stepped
        cases began
      · cases stepped

/-- A thread begins only calls that it invokes. -/
theorem mem_callsBy
    {thread : Thread}
    {call : Call}
    (ran : runSteps monitor.step system actions = some (final, events))
    (began : call ∈ callsBy thread events) :
    MonitorAction.invoke thread call ∈ actions := by
  induction actions generalizing system events with
  | nil =>
      cases ran
      cases began
  | cons action actions inductionHypothesis =>
      obtain ⟨next, event, rest, stepped, restRan, rfl⟩ :=
        runSteps_cons_eq_some.mp ran
      obtain ⟨first, member, called⟩ := List.mem_filterMap.mp began
      rcases List.mem_cons.mp member with rfl | later
      · rw [step_callBy stepped called]
        exact List.mem_cons_self
      · exact List.mem_cons_of_mem _
          (inductionHypothesis restRan (List.mem_filterMap.mpr ⟨first, later, called⟩))

/-- Only calls that were invoked have a place in the order. -/
theorem Linearizes.invoked
    (ran : runSteps monitor.step system actions = some (final, events))
    (linearizes : monitor.Linearizes start final events settled answers)
    {request : Thread × Call}
    (member : request ∈ requests events) :
    MonitorAction.invoke request.1 request.2 ∈ actions := by
  have isPrefix :=
    (linearizes.between events [] (List.append_nil events) request.1).1
  apply mem_callsBy ran
  apply isPrefix.subset
  exact List.mem_filterMap.mpr ⟨request, member, if_pos rfl⟩

/-! ## Progress -/

/-- A system that its threads have brought about. -/
def Reached
    (monitor : Monitor Shared Fixed Call Env Reply Out)
    (system : MonitorSystem Thread Shared Call Env Out) : Prop :=
  ∃ start events settled answers,
    monitor.Accounts start system events settled answers

section Progress

variable {next : MonitorSystem Thread Shared Call Env Out}
variable {event : MonitorEvent Thread Call Reply Out}
variable {action : MonitorAction Thread Call}
variable {thread holder : Thread} {call : Call} {env held : Env}
variable {body rest : List (Statement Shared Env Out)}

theorem Reached.step
    (reached : monitor.Reached system)
    (stepped : monitor.step system action = some (next, event)) :
    monitor.Reached next := by
  obtain ⟨start, events, settled, answers, accounts⟩ := reached
  obtain ⟨settledAfter, answersAfter, after⟩ := accounts.step stepped
  exact ⟨start, _, settledAfter, answersAfter, after⟩

theorem Reached.run
    (reached : monitor.Reached system)
    (ran : runSteps monitor.step system actions = some (final, events)) :
    monitor.Reached final := by
  obtain ⟨start, before, settled, answers, accounts⟩ := reached
  obtain ⟨settledAfter, answersAfter, after⟩ := accounts.run ran
  exact ⟨start, _, settledAfter, answersAfter, after⟩

theorem reached_initial (unlocked : (monitor.lock start).isSome) :
    monitor.Reached
      (initial start : MonitorSystem Thread Shared Call Env Out) :=
  ⟨start, [], start, [], accounts_initial unlocked⟩

/-- Only one thread is inside, and the others cannot take the mutex. -/
theorem Reached.alone
    (reached : monitor.Reached system)
    (inside : system.phase holder = .inside held rest) :
    (∀ other, (system.phase other).Inside → other = holder) ∧
      monitor.lock system.shared = none := by
  obtain ⟨start, events, settled, answers, accounts⟩ := reached
  obtain ⟨due, settles, _⟩ := accounts.settles
  have holderInside : (system.phase holder).Inside := by
    rw [inside]
    trivial
  cases settles with
  | free outside unlocked => exact absurd holderInside (outside holder)
  | held insideToo alone locked =>
      obtain rfl := alone holder holderInside
      exact ⟨alone, locked⟩

/-- The thread inside has the end of a call before it. -/
theorem Reached.rest_inside
    (reached : monitor.Reached system)
    (inside : system.phase holder = .inside held rest) :
    monitor.Rest (monitor.fixed system.shared) rest := by
  obtain ⟨start, events, settled, answers, accounts⟩ := reached
  have fits := accounts.fits holder
  rw [inside] at fits
  exact fits

/-- What a step puts out. -/
theorem step_out (stepped : monitor.step system action = some (next, event)) :
    event.out = [] ∨ event.out = monitor.lockOut ∨ event.out = monitor.unlockOut ∨
      ∃ holder held statement rest,
        system.phase holder = .inside held (statement :: rest) ∧
          event.out = (statement system.shared held).2.2 := by
  cases action with
  | invoke other call =>
      rw [Monitor.step] at stepped
      split at stepped
      · split at stepped <;> cases stepped <;> exact .inl rfl
      · cases stepped
  | lock other =>
      rw [Monitor.step] at stepped
      split at stepped
      · rw [Option.map_eq_some_iff] at stepped
        obtain ⟨shared, locks, rfl, rfl⟩ := stepped
        exact .inr (.inl rfl)
      · cases stepped
  | advance other =>
      rw [Monitor.step] at stepped
      split at stepped
      · rename_i held statement rest inside
        cases stepped
        exact .inr (.inr (.inr ⟨other, held, statement, rest, inside, rfl⟩))
      · cases stepped
  | unlock other =>
      rw [Monitor.step] at stepped
      split at stepped
      · cases stepped
        exact .inr (.inr (.inl rfl))
      · cases stepped
  | leave other =>
      rw [Monitor.step] at stepped
      split at stepped
      · cases stepped
        exact .inl rfl
      · cases stepped

/-- The thread inside can finish by itself: it executes its statements and gives the
mutex back, and the other threads stay where they are. -/
theorem leaves (inside : system.phase holder = .inside held rest) :
    ∃ actions after events,
      runSteps monitor.step system actions = some (after, events) ∧
        emitted events = (monitor.finish system.shared held rest).2.2 ∧
          (monitor.lock after.shared).isSome ∧
            ∀ other, other ≠ holder → after.phase other = system.phase other := by
  induction rest generalizing system held with
  | nil =>
      have stepped : monitor.step system (.unlock holder) =
          some (moved system holder (monitor.unlock system.shared) (.leaving held),
            .advanced holder monitor.unlockOut) := by
        simp only [Monitor.step, inside]
      refine ⟨[.unlock holder], _, _,
        runSteps_cons_eq_some.mpr ⟨_, _, _, stepped, rfl, rfl⟩, ?_, ?_, ?_⟩
      · simp [emitted, MonitorEvent.out, finish, runBody]
      · exact monitor.lock_unlock system.shared
      · intro other different
        exact moved_phase_ne different _ _
  | cons statement rest inductionHypothesis =>
      have stepped : monitor.step system (.advance holder) =
          some (moved system holder (statement system.shared held).1
              (.inside (statement system.shared held).2.1 rest),
            .advanced holder (statement system.shared held).2.2) := by
        simp only [Monitor.step, inside]
      obtain ⟨actions, after, events, ran, out, unlocked, others⟩ :=
        inductionHypothesis
          (moved_phase_self (statement system.shared held).1
            (.inside (statement system.shared held).2.1 rest))
      refine ⟨.advance holder :: actions, after, _,
        runSteps_cons_eq_some.mpr ⟨_, _, _, stepped, ran, rfl⟩, ?_, unlocked, ?_⟩
      · rw [emitted, List.flatMap_cons, ← emitted, out, finish_cons]
        rfl
      · intro other different
        rw [others other different, moved_phase_ne different]

/-- **No deadlock.** Whatever the threads have done, one that waits for the mutex can
get it, once the thread inside has put out what it still has to. -/
theorem Reached.enters
    (reached : monitor.Reached system)
    (waiting : system.phase thread = .waiting call env body) :
    ∃ settled due, monitor.Settles system settled due ∧
      ∃ actions after events,
        runSteps monitor.step system actions = some (after, events) ∧
          after.phase thread = .inside env body ∧
            emitted events = due ++ monitor.lockOut := by
  have locks (before : MonitorSystem Thread Shared Call Env Out)
      (stillWaiting : before.phase thread = .waiting call env body)
      (unlocked : (monitor.lock before.shared).isSome) :
      ∃ shared, monitor.step before (.lock thread) =
        some (moved before thread shared (.inside env body),
          .locked thread call monitor.lockOut) := by
    obtain ⟨shared, locked⟩ := Option.isSome_iff_exists.mp unlocked
    refine ⟨shared, ?_⟩
    simp only [Monitor.step, stillWaiting, locked, Option.map_some]
  obtain ⟨start, events, settled, answers, accounts⟩ := reached
  obtain ⟨due, settles, _⟩ := accounts.settles
  refine ⟨settled, due, settles, ?_⟩
  cases settles with
  | free outside unlocked =>
      obtain ⟨shared, stepped⟩ := locks system waiting unlocked
      refine ⟨[.lock thread], _, _,
        runSteps_cons_eq_some.mpr ⟨_, _, _, stepped, rfl, rfl⟩,
        moved_phase_self shared _, ?_⟩
      simp [emitted, MonitorEvent.out]
  | @held holder holderEnv holderBody inside alone locked =>
      obtain ⟨actions, after, left, ran, out, unlocked, others⟩ := leaves inside
      have different : thread ≠ holder := by
        rintro rfl
        rw [waiting] at inside
        cases inside
      obtain ⟨shared, stepped⟩ :=
        locks after ((others thread different).trans waiting) unlocked
      refine ⟨actions ++ [.lock thread], _, _, runSteps_concat ran stepped,
        moved_phase_self shared _, ?_⟩
      rw [emitted_concat, out, MonitorEvent.out]

/-- Step lemma: while a thread is inside, only that thread puts out anything. -/
theorem Reached.step_inside
    (reached : monitor.Reached system)
    (inside : system.phase holder = .inside held rest)
    (stepped : monitor.step system action = some (next, event)) :
    event.out = (monitor.finish system.shared held rest).2.2 ∨
      ∃ heldNext restNext, next.phase holder = .inside heldNext restNext ∧
        event.out ++ (monitor.finish next.shared heldNext restNext).2.2 =
          (monitor.finish system.shared held rest).2.2 := by
  obtain ⟨alone, locked⟩ := reached.alone inside
  have isHolder {other : Thread} {otherEnv : Env}
      {otherBody : List (Statement Shared Env Out)}
      (phase : system.phase other = .inside otherEnv otherBody) :
      other = holder := by
    apply alone
    rw [phase]
    trivial
  -- a thread that is somewhere else leaves the one inside where it is
  have undisturbed {other : Thread} {phase : Phase Shared Call Env Out}
      (different : system.phase other ≠ .inside held rest) :
      (moved system other system.shared phase).phase holder =
        .inside held rest := by
    rw [moved_phase_ne, inside]
    rintro rfl
    exact different inside
  cases action with
  | invoke other call =>
      rw [Monitor.step] at stepped
      split at stepped
      · rename_i idle
        have different : system.phase other ≠ .inside held rest := by
          simp [idle]
        split at stepped
        · cases stepped
          exact .inr ⟨held, rest, undisturbed different, rfl⟩
        · cases stepped
          exact .inr ⟨held, rest, undisturbed different, rfl⟩
      · cases stepped
  | lock other =>
      rw [Monitor.step] at stepped
      split at stepped
      · rw [locked] at stepped
        cases stepped
      · cases stepped
  | advance other =>
      rw [Monitor.step] at stepped
      split at stepped
      · rename_i env statement body phase
        obtain rfl := isHolder phase
        rw [inside] at phase
        cases phase
        cases stepped
        refine .inr ⟨_, _, moved_phase_self _ _, ?_⟩
        rw [finish_cons]
        rfl
      · cases stepped
  | unlock other =>
      rw [Monitor.step] at stepped
      split at stepped
      · rename_i env phase
        obtain rfl := isHolder phase
        rw [inside] at phase
        cases phase
        cases stepped
        exact .inl rfl
      · cases stepped
  | leave other =>
      rw [Monitor.step] at stepped
      split at stepped
      · rename_i env leaving
        have different : system.phase other ≠ .inside held rest := by
          simp [leaving]
        cases stepped
        exact .inr ⟨held, rest, undisturbed different, rfl⟩
      · cases stepped

/-- Run lemma: a thread that is inside stays there until it has put out all it has
to. -/
theorem Reached.run_inside
    (reached : monitor.Reached system)
    (inside : system.phase holder = .inside held rest)
    (ran : runSteps monitor.step system actions = some (final, events)) :
    (monitor.finish system.shared held rest).2.2 <+: emitted events ∨
      (final.phase holder).Inside := by
  induction actions generalizing system held rest events with
  | nil =>
      cases ran
      rw [inside]
      exact .inr trivial
  | cons action actions inductionHypothesis =>
      obtain ⟨next, event, later, stepped, laterRan, rfl⟩ :=
        runSteps_cons_eq_some.mp ran
      rw [emitted, List.flatMap_cons, ← emitted]
      cases reached.step_inside inside stepped with
      | inl all =>
          rw [all]
          exact .inl (List.prefix_append _ _)
      | inr stays =>
          obtain ⟨heldNext, restNext, insideNext, out⟩ := stays
          rw [← out, List.prefix_append_right_inj]
          exact inductionHypothesis (reached.step stepped) insideNext laterRan

/-- So no other thread gets the mutex before. -/
theorem Reached.emits_before
    (reached : monitor.Reached system)
    (inside : system.phase holder = .inside held rest)
    (ran : runSteps monitor.step system actions = some (final, events))
    (different : thread ≠ holder)
    (entered : final.phase thread = .inside env body) :
    (monitor.finish system.shared held rest).2.2 <+: emitted events := by
  cases reached.run_inside inside ran with
  | inl emits => exact emits
  | inr stays =>
      have same := ((reached.run ran).alone entered).1 holder stays
      exact absurd same.symm different

end Progress
end Runs

end Monitor
end Foundation
end Hiemal

import HornLoops.Shell.Session
import Mathlib

/-!
# Texts that are pending

What a machine writes and warns about is pending until the session writes it. After a query that was answered and a file
that was consulted nothing is pending. A line that ends in an error leaves everything with the machine, and it is written
in response to the next line that lets the machine work and does not end in an error, if there is one.
-/

namespace HornLoops.Shell

variable {fuel : Nat} {files : Files} {once : Bool} {session after : Session} {command : Command}
  {commands : List Command} {work : Talk String}

/-- Nothing is pending. -/
def Quiet (session : Session) : Prop := session.machine.output = "" ∧ session.machine.warnings = []

/-- What a command lets the machine do, and the words that are to follow what the machine has written. -/
def Command.work? (fuel : Nat) (files : Files) (once : Bool) : Command → Option (Talk String)
  | .consult path => some do
    let text ← Talk.readFile files path
    let _ ← Talk.work (.consulting path) (Machine.consult fuel text)
    return ""
  | .query text => some do
    let answers ← Talk.work .answering
      (if once then return (← Machine.queryOnce fuel text).toList else Machine.query fuel text)
    return answersText answers
  | _ => none

/-- The session after the machine has worked. If it was stopped by an error, only that is written. -/
def respondTo (work : Talk String) (session : Session) : Session :=
  match work session with
  | .ok words left => ⟨left.machine.clearOutput.clearWarnings, left.transcript ++ pendingText left.machine ++ words⟩
  | .error failure left => { left with transcript := left.transcript ++ ("error: " ++ failure.message ++ "\n") }

theorem reporting_eq {talk : Talk Unit} (same : talk = do
      let words ← work
      flush
      Talk.say words) : reporting talk session = .ok () (respondTo work session) := by
  subst same
  simp only [reporting, respondTo, tryCatch, tryCatchThe, MonadExceptOf.tryCatch, EStateM.tryCatch, Bind.bind,
    EStateM.bind]
  cases work session <;> rfl

theorem say_empty : Talk.say "" = pure () := by
  funext session
  simp [Talk.say, modify, modifyGet, MonadStateOf.modifyGet, EStateM.modifyGet, pure, EStateM.pure]

theorem respond_of_work (works : command.work? fuel files once = some work) :
    respond fuel files once command session = .ok () (respondTo work session) := by
  cases command with
  | consult path =>
    obtain rfl := Option.some.inj works
    exact reporting_eq (by simp [consultFile, say_empty])
  | query text =>
    obtain rfl := Option.some.inj works
    exact reporting_eq (by simp [answerQuery])
  | _ => cases works

/-- Other commands write something, but neither let the machine work nor write what is pending. -/
theorem exists_respond_eq (idle : command.work? fuel files once = none) :
    ∃ words, respond fuel files once command session = .ok () { session with transcript := session.transcript ++ words } := by
  cases command with
  | quit => exact ⟨"", by simp [respond, pure, EStateM.pure]⟩
  | help => exact ⟨_, rfl⟩
  | listing => exact ⟨_, rfl⟩
  | consult path => cases idle
  | query text => cases idle

/-- Commands are responded to one after the other. -/
inductive Responds (fuel : Nat) (files : Files) (once : Bool) : Session → List Command → Session → Prop
  | done (session : Session) : Responds fuel files once session [] session
  | next {session between after : Session} {command : Command} {commands : List Command}
      (first : respond fuel files once command session = .ok () between)
      (later : Responds fuel files once between commands after) :
      Responds fuel files once session (command :: commands) after

/-- Whatever is entered, the session responds to line after line. -/
theorem exists_responds (lines : List String) (session : Session) : ∃ commands after,
    converse fuel files once lines session = .ok () after ∧ Responds fuel files once session commands after := by
  induction lines generalizing session with
  | nil => exact ⟨[], session, rfl, .done session⟩
  | cons line lines ih =>
    have responds : ∃ between, respond fuel files once (.ofLine line) session = .ok () between := by
      cases works : (Command.ofLine line).work? fuel files once with
      | none => exact ⟨_, (exists_respond_eq works).choose_spec⟩
      | some work => exact ⟨_, respond_of_work works⟩
    obtain ⟨between, first⟩ := responds
    obtain ⟨commands, after, ended, later⟩ := ih between
    rw [converse]
    cases entered : Command.ofLine line with
    | quit => exact ⟨[], session, rfl, .done session⟩
    | _ =>
      rw [entered] at first
      exact ⟨_ :: commands, after, by simp only [Bind.bind, EStateM.bind, first, ended], .next first later⟩

/-- Commands that do not let the machine work leave it as it is. -/
theorem Responds.machine_eq (responds : Responds fuel files once session commands after)
    (idle : ∀ command ∈ commands, command.work? fuel files once = none) : after.machine = session.machine := by
  induction responds with
  | done session => rfl
  | next first later ih =>
    rw [List.forall_mem_cons] at idle
    obtain ⟨words, same⟩ := exists_respond_eq idle.1
    obtain ⟨-, rfl⟩ := EStateM.Result.ok.inj (first.symm.trans same)
    exact ih idle.2

/-- The last command that let the machine work ended in an error. -/
def LastFails (fuel : Nat) (files : Files) (once : Bool) (session : Session) (commands : List Command) : Prop :=
  ∃ earlier command later between work failure left, commands = earlier ++ command :: later ∧
    Responds fuel files once session earlier between ∧ command.work? fuel files once = some work ∧
    work between = .error failure left ∧ ∀ command ∈ later, command.work? fuel files once = none

/-- Something is pending only if a line has ended in an error and the machine has not worked since. -/
theorem Responds.quiet_or_lastFails (responds : Responds fuel files once session commands after)
    (quiet : Quiet session) : Quiet after ∨ LastFails fuel files once session commands := by
  suffices cases : Quiet after ∨ (∀ command ∈ commands, command.work? fuel files once = none) ∨
      LastFails fuel files once session commands by
    rcases cases with quiet' | idle | fails
    · exact .inl quiet'
    · exact .inl (by rwa [Quiet, responds.machine_eq idle])
    · exact .inr fails
  clear quiet
  induction responds with
  | done session => exact .inr (.inl (by simp))
  | @next session between after command commands first later ih =>
    rcases ih with quiet | idle | ⟨earlier, failing, rest, between', work, failure, left, rfl, responds, works, fails⟩
    · exact .inl quiet
    · cases works : command.work? fuel files once with
      | none => exact .inr (.inl (List.forall_mem_cons.mpr ⟨works, idle⟩))
      | some work =>
        obtain ⟨-, rfl⟩ := EStateM.Result.ok.inj (first.symm.trans (respond_of_work works))
        cases worked : work session with
        | ok words left =>
          refine .inl ?_
          rw [Quiet, later.machine_eq idle, respondTo, worked]
          exact ⟨rfl, rfl⟩
        | error failure left =>
          exact .inr (.inr ⟨[], command, commands, session, work, failure, left, rfl, .done session, works, worked, idle⟩)
    · exact .inr (.inr ⟨command :: earlier, failing, rest, between', work, failure, left, rfl, .next first responds,
        works, fails⟩)

end HornLoops.Shell

import TaskOrchestration.Lib.Shell
import TaskOrchestration.System.Ops

set_option autoImplicit false

/-!
# Shell commands

The executor rejects a command with a character that means something to the shell, and hands every
other one to `exec`, which starts a shell. A newline means something to the shell, too.

* `ShellPayload`, `ExecCall`, **`shellStep`**, `executeShellCommand`;
* `executeShellCommand_congr`, `accepted_of_execs`: what is known of a command that is handed to
  `exec`;
* **`single_command_iff`**: it is a single command exactly if its newlines are quoted;
  `two_commands_accepted`.
-/

namespace TaskOrchestration

open Shell

structure ShellPayload where
  command : Option String
  cwd : Option String := none
  env : List (String × String) := []
  deriving DecidableEq, Repr

/-- What `exec` is called with. An earlier entry of `env` hides a later one. -/
structure ExecCall where
  command : String
  cwd : String
  env : List (String × String)
  timeout : ℕ
  deriving DecidableEq, Repr

inductive ExecOutcome
  | resolves (stdout stderr : String)
  | rejects (stdout stderr : Option String) (code : Option ℤ) (message : String)
  deriving DecidableEq, Repr

namespace JobExecutor

/-- `dangerousPatterns`. -/
def dangerousCharacters : List Char :=
  [';', '&', '|', '\x60', '$', '(', ')', '\x7b', '\x7d', '[', ']', '<', '>']

/-- What `executeShellCommand` comes to before it waits for `exec`. -/
inductive ShellStep
  | throws (message : String)
  | returns (result : ExecutionResult)
  | execs (call : ExecCall)
  deriving DecidableEq, Repr

variable (processCwd : String) (processEnv : List (String × String))

/-- **The command is checked**, and handed to `exec`. An empty command counts as none. -/
def shellStep (payload : ShellPayload) : ShellStep :=
  match payload.command.filter (· ≠ "") with
  | none => .throws "SHELL_COMMAND job requires payload.command"
  | some command =>
      if command.toList.any (· ∈ dangerousCharacters) then
        .returns {
          success := false
          errorMessage := some "Command contains disallowed shell characters"
          errorCode := some "SECURITY_VIOLATION" }
      else
        .execs {
          command := command
          cwd := payload.cwd.getD processCwd
          env := payload.env ++ processEnv
          timeout := 60000 }

/-- `text.slice(0, n)`. A character beyond the first plane counts twice. -/
def slice : ℕ → List Char → List Char
  | _, [] => []
  | n, c :: cs =>
      let units := if c.val < 0x10000 then 1 else 2
      if units ≤ n then c :: slice (n - units) cs else []

def sliceText (n : ℕ) (text : String) : String := String.ofList (slice n text.toList)

/-- `executeShellCommand`: the result, or the message of the error it throws. -/
def executeShellCommand (exec : ExecCall → ExecOutcome) (payload : ShellPayload) :
    Except String ExecutionResult :=
  match shellStep processCwd processEnv payload with
  | .throws message => .error message
  | .returns result => .ok result
  | .execs call =>
      match exec call with
      | .resolves stdout stderr => .ok {
          success := true
          exitCode := some 0
          stdout := some (sliceText 50000 stdout)
          stderr := some (sliceText 10000 stderr) }
      | .rejects stdout stderr code message => .ok {
          success := false
          exitCode := code
          stdout := stdout.map (sliceText 50000)
          stderr := stderr.map (sliceText 10000)
          errorMessage := some message
          errorCode := some "SHELL_ERROR" }

variable {processCwd processEnv} {payload : ShellPayload} {call : ExecCall}

/-- **Nothing else reaches `exec`** than the call that the command is handed over with. -/
theorem executeShellCommand_congr {exec exec' : ExecCall → ExecOutcome}
    (h : ∀ call, shellStep processCwd processEnv payload = .execs call → exec call = exec' call) :
    executeShellCommand processCwd processEnv exec payload =
      executeShellCommand processCwd processEnv exec' payload := by
  unfold executeShellCommand
  split
  · rfl
  · rfl
  · rename_i call hcall
    rw [h call hcall]

/-- **A command that is handed to `exec`** has none of the characters. -/
theorem accepted_of_execs (h : shellStep processCwd processEnv payload = .execs call) :
    ∀ c ∈ call.command.toList, c ∉ dangerousCharacters := by
  unfold shellStep at h
  split at h
  · cases h
  · split_ifs at h with hbad
    obtain rfl := ShellStep.execs.inj h
    exact fun c hc hmem => hbad (List.any_eq_true.mpr ⟨c, hc, decide_eq_true hmem⟩)

/-- The characters are all that begin an expansion, and all but the newline that begin an
operator. -/
theorem dangerous_of_special :
    (∀ c ∈ expansionStart, c ∈ dangerousCharacters) ∧
      ∀ c ∈ operatorStart, c ∈ dangerousCharacters ∨ c = '\n' := by
  simp [expansionStart, operatorStart, dangerousCharacters]

/-- **A command that is handed to `exec`** is a single command exactly if each of its newlines is
quoted. -/
theorem single_command_iff (h : shellStep processCwd processEnv payload = .execs call) :
    SingleCommand call.command.toList ↔
      newlinesQuoted (.bare false) call.command.toList = true := by
  have haccepted := accepted_of_execs h
  obtain ⟨hexp, hop⟩ := dangerous_of_special
  exact singleCommand_iff (fun c hc hmem => haccepted c hc (hexp c hmem))
    fun c hc hmem => (hop c hmem).resolve_left (haccepted c hc)

theorem quoted_newline_single : SingleCommand "echo 'a\nb'".toList := by
  have h : shellStep "/" [] ⟨some "echo 'a\nb'", none, []⟩ =
      .execs ⟨"echo 'a\nb'", "/", [], 60000⟩ := by decide
  exact (single_command_iff h).mpr (by decide)

/-- **Two commands**, on two lines, are handed to `exec`. -/
theorem two_commands_accepted : ¬ ∀ (processCwd : String) (processEnv : List (String × String))
    (payload : ShellPayload) (call : ExecCall),
    shellStep processCwd processEnv payload = .execs call → SingleCommand call.command.toList := by
  intro h
  have hsingle := h "/" [] ⟨some "ls\nrm x", none, []⟩ ⟨"ls\nrm x", "/", [], 60000⟩ (by decide)
  exact absurd hsingle.single (by decide)

end JobExecutor

end TaskOrchestration

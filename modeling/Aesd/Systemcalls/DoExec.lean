import Aesd.Foundation.FileTable

/-!
# Running a program

`do_system`, `do_exec` and `do_exec_redirect` run a program in a child and tell
from how it ended whether that was successful. The last one lets the standard
output of the program refer to a file.
-/

namespace Aesd

open FileTable

/-- How a process ends. A signal that ends a process is one of 1 to 126. -/
inductive Ended
  | exited (code : Nat)
  | signaled (signal : Nat) (core : Bool) (hpos : 0 < signal) (hlt : signal < 127)
  deriving DecidableEq, Repr

def exitFailure : Nat := 1

/-- The status that `waitpid` stores: of the code of an exit it has the last byte. -/
def Ended.status : Ended → Nat
  | .exited code => code % 256 * 256
  | .signaled signal core _ _ => signal + if core then 128 else 0

/-- `WIFEXITED`. -/
def wIfExited (status : Nat) : Bool := status % 128 == 0

/-- `WEXITSTATUS`. -/
def wExitStatus (status : Nat) : Nat := status / 256 % 256

/-- An exit is told apart from a signal. -/
theorem wIfExited_status (ended : Ended) :
    wIfExited ended.status = true ↔ ∃ code, ended = .exited code := by
  cases ended with
  | exited code =>
      refine iff_of_true ?_ ⟨code, rfl⟩
      rw [wIfExited, Ended.status, beq_iff_eq]
      omega
  | signaled signal core hpos hlt =>
      refine iff_of_false ?_ fun ⟨_, heq⟩ => (by cases heq)
      rw [wIfExited, Ended.status, beq_iff_eq]
      cases core <;> simp <;> omega

theorem wExitStatus_status (code : Nat) : wExitStatus (Ended.exited code).status = code % 256 := by
  rw [wExitStatus, Ended.status]
  omega

/-- `do_system` with what `system` returns. -/
def doSystem (isNull : Bool) (status : Int) : Bool :=
  if status = -1 then false
  else if isNull ∧ status = 0 then false
  else if wIfExited status.toNat then wExitStatus status.toNat != 127
  else false

/-- The parent, with the status of its child if `waitpid` gives it. -/
def childSucceeded (status : Option Nat) : Bool :=
  status.elim false fun status => wIfExited status && wExitStatus status == 0

/-- `do_exec_child`: when the program cannot be run there is no end of it. -/
def doExecChild (program : Option Ended) : Ended := program.getD (.exited exitFailure)

/-- `do_exec`, with the program that its arguments name. -/
def doExec (fork waitpid : Bool) (program : Option Ended) : Bool :=
  fork && childSucceeded (if waitpid then some (doExecChild program).status else none)

/-- A program succeeded when its code is a multiple of 256. -/
theorem childSucceeded_status (ended : Ended) :
    childSucceeded (some ended.status) = true ↔ ∃ code, ended = .exited code ∧ code % 256 = 0 := by
  rw [childSucceeded, Option.elim_some, Bool.and_eq_true, wIfExited_status, beq_iff_eq]
  constructor
  · rintro ⟨⟨code, rfl⟩, hstatus⟩
    exact ⟨code, rfl, (wExitStatus_status code).symm.trans hstatus⟩
  · rintro ⟨code, rfl, hcode⟩
    exact ⟨⟨code, rfl⟩, (wExitStatus_status code).trans hcode⟩

theorem doExec_iff {fork waitpid : Bool} {program : Option Ended} :
    doExec fork waitpid program = true ↔ fork = true ∧ waitpid = true ∧
      ∃ code, program = some (.exited code) ∧ code % 256 = 0 := by
  rw [doExec, Bool.and_eq_true]
  refine and_congr_right fun _ => ?_
  cases waitpid with
  | false => simp [childSucceeded]
  | true =>
      rw [if_pos rfl, childSucceeded_status, eq_self_iff_true, true_and]
      cases program with
      | none => simp [doExecChild, exitFailure]
      | some ended => simp [doExecChild]

/-- A command that fails counts as run by `do_system`: only 127, which says that
there was no command, does not. -/
theorem doSystem_status (ended : Ended) :
    doSystem false ended.status = true ↔ ∃ code, ended = .exited code ∧ code % 256 ≠ 127 := by
  have hnonneg : (ended.status : Int) ≠ -1 := by omega
  simp only [doSystem, if_neg hnonneg, Bool.false_eq_true, false_and, if_false, Int.toNat_natCast]
  constructor
  · intro h
    by_cases hexited : wIfExited ended.status = true
    · obtain ⟨code, rfl⟩ := (wIfExited_status ended).mp hexited
      rw [if_pos hexited, bne_iff_ne, wExitStatus_status] at h
      exact ⟨code, rfl, h⟩
    · rw [if_neg hexited] at h
      cases h
  · rintro ⟨code, rfl, hcode⟩
    rw [if_pos ((wIfExited_status _).mpr ⟨code, rfl⟩), bne_iff_ne, wExitStatus_status]
    exact hcode

/-! ## Redirection -/

variable {α : Type}

/-- `close` fails for a descriptor that is not open, and may fail for one that it
closes. -/
def closeCall (t : Table α) (fd : Nat) (ok : Bool) : Table α × Bool :=
  (t.close fd, t.isOpen fd && ok)

/-- Which calls of `do_exec_redirect_child` may succeed. -/
structure RedirectCalls where
  creat : Bool
  closeStdout : Bool
  dup2 : Bool
  closeOutFd : Bool
  deriving DecidableEq, Repr

/-- `do_exec_redirect_child`. What the program does may depend on its descriptors. -/
def doExecRedirectChild (file : α) (calls : RedirectCalls) (program : Table α → Option Ended)
    (t : Table α) : Ended :=
  if !calls.creat then .exited exitFailure
  else
    let outFd := t.lowest
    let (t, ok) := closeCall (t.put outFd file) 1 calls.closeStdout
    if !ok then .exited exitFailure
    else
      match if calls.dup2 then t.dup2 outFd 1 else none with
      | none => .exited exitFailure
      | some t =>
        let (t, ok) := closeCall t outFd calls.closeOutFd
        if !ok then .exited exitFailure
        else (program t).getD (.exited exitFailure)

/-- `do_exec_redirect`. -/
def doExecRedirect (file : α) (fork waitpid : Bool) (calls : RedirectCalls)
    (program : Table α → Option Ended) (t : Table α) : Bool :=
  fork && childSucceeded
    (if waitpid then some (doExecRedirectChild file calls program t).status else none)

def RedirectCalls.succeed : RedirectCalls := ⟨true, true, true, true⟩

variable {file : α} {calls : RedirectCalls} {program : Table α → Option Ended} {t : Table α}

theorem lowest_ne_stdout (hopen : t.isOpen 1 = true) : t.lowest ≠ 1 := by
  intro heq
  have hclosed := t.isOpen_lowest
  rw [heq, hopen] at hclosed
  cases hclosed

/-- Another descriptor than standard output was opened for the file, and it is
closed again. -/
theorem redirected (file : α) (hopen : t.isOpen 1 = true) :
    (((t.put t.lowest file).close 1).put 1 file).close t.lowest = t.put 1 file := by
  have hne := lowest_ne_stdout hopen
  ext fd : 1
  rcases eq_or_ne fd t.lowest with rfl | hlowest
  · rw [Table.file_close_self, Table.file_put_of_ne _ _ hne]
    exact (Table.isOpen_eq_false_iff.mp t.isOpen_lowest).symm
  · rw [Table.file_close_of_ne _ hlowest]
    rcases eq_or_ne fd 1 with rfl | hstdout
    · rw [Table.file_put_self, Table.file_put_self]
    · rw [Table.file_put_of_ne _ _ hstdout, Table.file_close_of_ne _ hstdout,
        Table.file_put_of_ne _ _ hlowest, Table.file_put_of_ne _ _ hstdout]

/-- With standard output open, only a call that fails keeps the program from running. -/
theorem doExecRedirectChild_of_open (hopen : t.isOpen 1 = true) :
    doExecRedirectChild file calls program t =
      if calls = .succeed then doExecChild (program (t.put 1 file)) else .exited exitFailure := by
  have hne := lowest_ne_stdout hopen
  have hstdout : (t.put t.lowest file).isOpen 1 = true := by
    rw [Table.isOpen_put, Function.update_of_ne hne.symm, hopen]
  have hdup : ((t.put t.lowest file).close 1).dup2 t.lowest 1 =
      some (((t.put t.lowest file).close 1).put 1 file) := by
    rw [Table.dup2, Table.file_close_of_ne _ hne, Table.file_put_self]
    rfl
  have houtFd : (((t.put t.lowest file).close 1).put 1 file).isOpen t.lowest = true := by
    rw [Table.isOpen_put, Function.update_of_ne hne, Table.isOpen_close,
      Function.update_of_ne hne, Table.isOpen_put, Function.update_self]
  obtain ⟨creat, closeStdout, dup2, closeOutFd⟩ := calls
  cases creat <;> cases closeStdout <;> cases dup2 <;> cases closeOutFd
  all_goals
    simp [doExecRedirectChild, RedirectCalls.succeed, closeCall, hstdout, hdup, houtFd,
      redirected file hopen, doExecChild]

/-- Without it the file gets a standard descriptor itself, and is closed again in
place of standard output, or there is nothing to close. -/
theorem doExecRedirectChild_of_closed (hclosed : t.isOpen 1 = false) :
    doExecRedirectChild file calls program t = .exited exitFailure := by
  rcases eq_or_ne t.lowest 1 with hlowest | hne
  · have hdup : ((t.put 1 file).close 1).dup2 1 1 = none := by
      rw [Table.dup2, Table.file_close_self]
      rfl
    simp [doExecRedirectChild, closeCall, hlowest, hdup]
  · have hstdout : (t.put t.lowest file).isOpen 1 = false := by
      rw [Table.isOpen_put, Function.update_of_ne hne.symm, hclosed]
    simp [doExecRedirectChild, closeCall, hstdout]

/-- Redirection is running the program with another table, or not at all. -/
theorem doExecRedirectChild_eq (file : α) (calls : RedirectCalls)
    (program : Table α → Option Ended) (t : Table α) :
    doExecRedirectChild file calls program t = doExecChild
      (if calls = .succeed ∧ t.isOpen 1 = true then program (t.put 1 file) else none) := by
  cases hopen : t.isOpen 1 with
  | false =>
      rw [doExecRedirectChild_of_closed hopen, if_neg fun h => Bool.noConfusion h.2]
      rfl
  | true =>
      rw [doExecRedirectChild_of_open hopen]
      by_cases hcalls : calls = .succeed
      · rw [if_pos hcalls, if_pos ⟨hcalls, rfl⟩]
      · rw [if_neg hcalls, if_neg fun h => hcalls h.1]
        rfl

theorem doExecRedirect_eq (fork waitpid : Bool) :
    doExecRedirect file fork waitpid calls program t = doExec fork waitpid
      (if calls = .succeed ∧ t.isOpen 1 = true then program (t.put 1 file) else none) := by
  rw [doExecRedirect, doExec, doExecRedirectChild_eq]

/-- `do_exec_redirect` is successful exactly when standard output was open, every call
succeeds, and the program exits with a multiple of 256 when its standard output is
the file and its other descriptors are those of the caller. -/
theorem doExecRedirect_iff {fork waitpid : Bool} :
    doExecRedirect file fork waitpid calls program t = true ↔
      fork = true ∧ waitpid = true ∧ calls = .succeed ∧ t.isOpen 1 = true ∧
        ∃ code, program (t.put 1 file) = some (.exited code) ∧ code % 256 = 0 := by
  rw [doExecRedirect_eq, doExec_iff]
  by_cases hruns : calls = .succeed ∧ t.isOpen 1 = true
  · rw [if_pos hruns]
    simp only [hruns, true_and]
  · rw [if_neg hruns]
    refine and_congr_right fun _ => and_congr_right fun _ => iff_of_false ?_ fun h => ?_
    · rintro ⟨code, heq, _⟩
      cases heq
    · exact hruns ⟨h.1, h.2.1⟩

end Aesd

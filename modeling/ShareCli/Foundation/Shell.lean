import Mathlib.Data.List.Basic

/-!
# Programs that run commands

A program asks whether a tool is installed, runs commands and sleeps. A `Shell` answers: which tools are
installed is fixed, and what a command comes to may depend on all the commands before it.
-/

namespace ShareCli.Foundation

structure Invocation where
  bin : String
  args : List String
  stdin : Option (List UInt8)
deriving DecidableEq

structure CommandOutput where
  success : Bool
  status : String
  stdout : String
  stderr : String
deriving DecidableEq

inductive RunError where
  | spawn (error : String)
  | write (error : String)
  | wait (error : String)
deriving DecidableEq

def RunError.text : RunError → String
  | .spawn error => error
  | .write error => error
  | .wait error => error

abbrev RunAnswer := Except RunError CommandOutput

/-- What answers to commands. -/
structure Shell where
  installed : String → Bool
  answer : List Invocation → Invocation → RunAnswer
  not_started : ∀ history command, installed command.bin = false →
    ∃ error, answer history command = .error (.spawn error)

inductive ShellProgram (α : Type) where
  | done (result : α)
  | which (bin : String) (next : Bool → ShellProgram α)
  | run (command : Invocation) (next : RunAnswer → ShellProgram α)
  | sleep (millis : Nat) (next : ShellProgram α)

namespace ShellProgram

variable {α β : Type}

def bind (program : ShellProgram α) (rest : α → ShellProgram β) : ShellProgram β :=
  match program with
  | .done result => rest result
  | .which bin next => .which bin fun found => (next found).bind rest
  | .run command next => .run command fun answer => (next answer).bind rest
  | .sleep millis next => .sleep millis (next.bind rest)

def exec (shell : Shell) (history : List Invocation) : ShellProgram α → α × List Invocation
  | .done result => (result, history)
  | .which bin next => (next (shell.installed bin)).exec shell history
  | .run command next => (next (shell.answer history command)).exec shell (command :: history)
  | .sleep _ next => next.exec shell history

theorem exec_bind (sh : Shell) (history : List Invocation) (prog : ShellProgram α) (rs : α → ShellProgram β) :
    (prog.bind rs).exec sh history = (rs (prog.exec sh history).1).exec sh (prog.exec sh history).2 := by
  induction prog generalizing history with
  | done r => rfl
  | which bin next ih => exact ih _ history
  | run cmd next ih => exact ih _ (cmd :: history)
  | sleep m next ih => exact ih history

theorem suffix_exec (sh : Shell) (history : List Invocation) (prog : ShellProgram α) :
    history <:+ (prog.exec sh history).2 := by
  induction prog generalizing history with
  | done r => exact List.suffix_refl history
  | which bin next ih => exact ih _ history
  | run cmd next ih => exact (List.suffix_cons cmd history).trans (ih _ (cmd :: history))
  | sleep m next ih => exact ih history

end ShellProgram

end ShareCli.Foundation

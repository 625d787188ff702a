import Yagips.Commands.Tokenizer
import Yagips.Lib.Run

/-!
# The commands

The registered commands stand in a vector. Taking one out erases it inside a loop over the vector
and then advances the iterator that the erase made invalid; taking all out calls `empty`, which
asks whether there are any. So the registry serves exactly the histories in which no command is
ever taken out.
-/
namespace Yagips.Commands

open Yagips.Lib
open Yagips.Lib.Run

/-- A command as the registry asks it: its name, its aliases and what handles a call. -/
structure Command (H : Type) where
  name : Bytes
  aliases : List Bytes
  handle : H

variable {H P : Type}

def Command.Named (cmd : Bytes) (c : Command H) : Prop := c.name = cmd ∨ cmd ∈ c.aliases

instance (cmd : Bytes) (c : Command H) : Decidable (c.Named cmd) :=
  inferInstanceAs (Decidable (_ ∨ _))

/-! ## Iterators of a vector -/

/-- A position, and whether no erase has made it invalid. -/
structure Iterator where
  pos : Nat
  valid : Bool

namespace Iterator

def begin : Iterator := { pos := 0, valid := true }

def isEnd (i : Iterator) (commands : List (Command H)) : Except Fault Bool :=
  if i.valid then .ok (i.pos = commands.length) else .error .pointer

def deref (i : Iterator) (commands : List (Command H)) : Except Fault (Command H) :=
  if i.valid then
    match commands[i.pos]? with
    | some c => .ok c
    | none => .error (.read i.pos)
  else .error .pointer

def advance (i : Iterator) : Except Fault Iterator :=
  if i.valid then .ok { i with pos := i.pos + 1 } else .error .pointer

/-- `erase` makes invalid the iterator it is given. -/
def erase (i : Iterator) (commands : List (Command H)) : Except Fault (List (Command H) × Iterator) :=
  if i.valid then .ok (commands.eraseIdx i.pos, { i with valid := false }) else .error .pointer

end Iterator

/-! ## The registry -/

def registerCommand (commands : List (Command H)) (cmd : Command H) : List (Command H) :=
  commands ++ [cmd]

def unregisterLoop (cmd : Bytes) :
    Nat → List (Command H) → Iterator → Except Fault (List (Command H))
  | 0, _, _ => .error .endless
  | fuel + 1, commands, i => do
    if ← i.isEnd commands then return commands
    else
      let c ← i.deref commands
      -- by name or by alias, the walk goes on from the erased iterator
      let (commands, i) ← if c.Named cmd then i.erase commands else pure (commands, i)
      let i ← i.advance
      unregisterLoop cmd fuel commands i

def unregisterCommand (commands : List (Command H)) (cmd : Bytes) : Except Fault (List (Command H)) :=
  unregisterLoop cmd (commands.length + 1) commands .begin

/-- The body is `commands.empty();`. -/
def unregisterAllCommands (commands : List (Command H)) : List (Command H) := commands

/-- What a call of a command comes to: a code, or the call of its handler. -/
inductive Reply (H P : Type) where
  | code (n : Int)
  | handle (c : Command H) (player : P) (args : List Bytes)

def findCommand (cmd : Bytes) : List (Command H) → Option (Command H)
  | [] => none
  | c :: rest =>
    if c.name = cmd then some c
    else if cmd ∈ c.aliases then some c
    else findCommand cmd rest

def handleCommand (commands : List (Command H)) (player : P) : List Bytes → Reply H P
  | [] => .code (-1)
  | cmd :: args =>
    match findCommand cmd commands with
    | some c => .handle c player args
    | none => .code (-2)

/-- `handleCommand` of a text, with the static arrays as the last call left them. -/
def handleText (commands : List (Command H)) (player : P) (argbuf : Bytes) (argv : List Nat) (cmd : Bytes) :
    Except Fault (Reply H P × Bytes × List Nat) := do
  let t ← tokenize argbuf argv cmd
  return (handleCommand commands player t.args, t.argbuf, t.argv)

theorem findCommand_eq (cmd : Bytes) (commands : List (Command H)) :
    findCommand cmd commands = commands.find? fun c => c.Named cmd := by
  induction commands with
  | nil => rfl
  | cons c rest ih =>
    rw [findCommand, List.find?_cons]
    by_cases hname : c.name = cmd
    · simp [Command.Named, hname]
    · by_cases halias : cmd ∈ c.aliases
      · simp [Command.Named, halias]
      · simp [Command.Named, hname, halias, ih]

/-- A text comes to its first argument's command, whatever earlier texts left in the arrays. -/
theorem handleText_of (commands : List (Command H)) (player : P) {argbuf : Bytes} {argv : List Nat}
    {cmd : Bytes} (hbuf : argbuf.length = 1024) (hargv : argv.length = 32) (hcmd : 0 ∈ cmd) :
    ∃ argbuf' argv', argbuf'.length = 1024 ∧ argv'.length = 32 ∧
      handleText commands player argbuf argv cmd =
        .ok (handleCommand commands player (({} : Line).walk cmd).args, argbuf', argv') := by
  obtain ⟨t, htokenize, ht⟩ := tokenize_handed hbuf hargv hcmd
  refine ⟨t.argbuf, t.argv, ht.argbuf_length, ht.argv_length, ?_⟩
  rw [handleText, htokenize, ok_bind, ht.args]
  rfl

/-! ## What taking a command out does -/

/-- From a position on, the loop ends where nothing there has the name, and leaves all. -/
theorem unregisterLoop_iff (cmd : Bytes) (commands : List (Command H)) :
    ∀ fuel pos, commands.length < pos + fuel → pos ≤ commands.length →
      ∀ commands', unregisterLoop cmd fuel commands ⟨pos, true⟩ = .ok commands' ↔
        (∀ c ∈ commands.drop pos, ¬ c.Named cmd) ∧ commands' = commands := by
  intro fuel
  induction fuel with
  | zero =>
    intro pos hfuel hpos
    omega
  | succ fuel ih =>
    intro pos hfuel hpos commands'
    by_cases hend : pos = commands.length
    · have hdone : unregisterLoop cmd (fuel + 1) commands ⟨pos, true⟩ = .ok commands := by
        simp [unregisterLoop, Iterator.isEnd, hend, ok_bind, pure_eq_ok]
      rw [hdone, hend, List.drop_length]
      constructor
      · intro h
        exact ⟨fun c hc => (nomatch hc), (Except.ok.inj h).symm⟩
      · intro h
        rw [h.2]
    · have hin : pos < commands.length := by omega
      rw [List.drop_eq_getElem_cons hin]
      by_cases hnamed : (commands[pos]).Named cmd
      · have hstop : unregisterLoop cmd (fuel + 1) commands ⟨pos, true⟩ = .error .pointer := by
          simp [unregisterLoop, Iterator.isEnd, Iterator.deref, Iterator.erase, Iterator.advance, hend,
            hin, hnamed, ok_bind]
          rfl
        rw [hstop]
        constructor
        · intro h
          cases h
        · intro h
          exact absurd hnamed (h.1 _ List.mem_cons_self)
      · have hgo : unregisterLoop cmd (fuel + 1) commands ⟨pos, true⟩ =
            unregisterLoop cmd fuel commands ⟨pos + 1, true⟩ := by
          simp [unregisterLoop, Iterator.isEnd, Iterator.deref, Iterator.advance, hend, hin, hnamed,
            ok_bind, pure_eq_ok]
        rw [hgo, ih (pos + 1) (by omega) (by omega), List.forall_mem_cons]
        simp only [hnamed, not_false_eq_true, true_and]

theorem unregisterCommand_iff (commands : List (Command H)) (cmd : Bytes) (commands' : List (Command H)) :
    unregisterCommand commands cmd = .ok commands' ↔
      (∀ c ∈ commands, ¬ c.Named cmd) ∧ commands' = commands :=
  unregisterLoop_iff cmd commands (commands.length + 1) 0 (by omega) (Nat.zero_le _) commands'

/-! ## Histories -/

inductive Op (H : Type) where
  | register (c : Command H)
  | unregister (cmd : Bytes)
  | unregisterAll

def step (commands : List (Command H)) : Op H → Except Fault (List (Command H))
  | .register c => .ok (registerCommand commands c)
  | .unregister cmd => unregisterCommand commands cmd
  | .unregisterAll => .ok (unregisterAllCommands commands)

/-- The commands that are still registered, in the order they came. -/
def Op.apply (commands : List (Command H)) : Op H → List (Command H)
  | .register c => commands ++ [c]
  | .unregister cmd => commands.filter fun c => ¬ c.Named cmd
  | .unregisterAll => []

def standing (ops : List (Op H)) : List (Command H) := ops.foldl Op.apply []

/-- What a registry is for, after a history. -/
structure Serves (ops : List (Op H)) (commands : List (Command H)) : Prop where
  dispatch : ∀ (P : Type) (player : P) (cmd : Bytes) (args : List Bytes),
    handleCommand commands player (cmd :: args) =
      match (standing ops).find? (fun c => c.Named cmd) with
      | some c => .handle c player args
      | none => .code (-2)
  gone : ∀ done cmd, ops = done ++ [.unregister cmd] → ∀ c ∈ commands, ¬ c.Named cmd
  all_gone : ∀ done, ops = done ++ [.unregisterAll] → commands = []

/-- The step takes out no command. -/
def TakesNone (commands : List (Command H)) : Op H → Prop
  | .register _ => True
  | .unregister cmd => ∀ c ∈ commands, ¬ c.Named cmd
  | .unregisterAll => commands = []

theorem step_of_takesNone {commands : List (Command H)} {op : Op H} (h : TakesNone commands op) :
    step commands op = .ok (op.apply commands) := by
  cases op with
  | register c => rfl
  | unregister cmd =>
    have hall : (Op.unregister cmd).apply commands = commands := by
      rw [Op.apply, List.filter_eq_self]
      intro c hc
      exact decide_eq_true (h c hc)
    rw [hall]
    exact (unregisterCommand_iff commands cmd commands).mpr ⟨h, rfl⟩
  | unregisterAll =>
    rw [step, unregisterAllCommands, h]
    rfl

theorem run_of_along {commands : List (Command H)} {ops : List (Op H)}
    (h : Along step TakesNone commands ops) : run step commands ops = .ok (ops.foldl Op.apply commands) := by
  induction ops generalizing commands with
  | nil => rfl
  | cons op ops ih =>
    have hstep := step_of_takesNone h.1
    rw [run, hstep]
    exact ih (h.2 _ hstep)

theorem serves_standing (ops : List (Op H)) : Serves ops (standing ops) where
  dispatch P player cmd args := by rw [handleCommand, findCommand_eq]
  gone done cmd hops := by
    intro c hc
    rw [hops, standing, List.foldl_append] at hc
    simpa using (List.mem_filter.mp hc).2
  all_gone done hops := by
    rw [hops, standing, List.foldl_append]
    rfl

/-- A registry serves a history at every point exactly where each `unregisterCommand` of it finds no
command to take out, and each `unregisterAllCommands` none at all. -/
theorem serves_iff_takesNone (ops : List (Op H)) :
    (∀ done rest, ops = done ++ rest → ∃ commands, run step [] done = .ok commands ∧ Serves done commands) ↔
      Along step TakesNone [] ops := by
  constructor
  · intro h
    refine along_of_prefixes fun done op rest commands hops hrun => ?_
    have hops' : ops = (done ++ [op]) ++ rest := by rw [hops, List.append_assoc]; rfl
    obtain ⟨commands', hrun', hserves⟩ := h (done ++ [op]) rest hops'
    obtain ⟨before, hbefore, hstep⟩ := run_concat.mp hrun'
    have hsame : before = commands := Except.ok.inj (hbefore.symm.trans hrun)
    subst hsame
    cases op with
    | register c => trivial
    | unregister cmd => exact ((unregisterCommand_iff before cmd commands').mp hstep).1
    | unregisterAll =>
      have hnone := hserves.all_gone done rfl
      exact (Except.ok.inj hstep).trans hnone
  · intro h done rest hops
    subst hops
    exact ⟨standing done, run_of_along (along_of_append h), serves_standing done⟩

/-- Taking out the only command there is steps off an erased iterator. -/
theorem not_serves_unregister :
    ¬ ∀ (ops : List (Op Unit)) (done rest : List (Op Unit)), ops = done ++ rest →
      ∃ commands, run step [] done = .ok commands ∧ Serves done commands := by
  intro h
  obtain ⟨commands, hrun, -⟩ := h [.register ⟨ascii "account", [], ()⟩, .unregister (ascii "account")]
    [.register ⟨ascii "account", [], ()⟩, .unregister (ascii "account")] [] rfl
  have hstop : run step [] [.register ⟨ascii "account", [], ()⟩, .unregister (ascii "account")] =
      .error .pointer := rfl
  rw [hstop] at hrun
  cases hrun

end Yagips.Commands

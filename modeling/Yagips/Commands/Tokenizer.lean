import Yagips.Lib.Bytes

/-!
# The command line

A command arrives as one C string. `handleCommand` copies it into a static buffer of 1024
bytes, quotes taken out and the blanks that separate arguments made terminators in place,
and keeps where each argument starts in a static array of 32 pointers. Both arrays hold
what earlier commands left in them.

Over the buffers stands the line as a list of finished arguments and the one being read;
`Represents` says which of both describe one command.
-/
namespace Yagips.Commands

open Yagips.Lib

/-- The two static arrays and the locals of `handleCommand`; pointers into `argbuf` are offsets. -/
structure Tokens where
  argbuf : Bytes
  argv : List Nat
  argc : Nat := 0
  arg_ptr : Nat := 0
  arg_dst : Nat := 0
  quotes : Nat := 0
  deriving DecidableEq, Repr

namespace Tokens

def copy (t : Tokens) (c : UInt8) : Except Fault Tokens := do
  let argbuf ← setAt t.argbuf t.arg_dst c
  return { t with argbuf, arg_dst := t.arg_dst + 1 }

/-- A quote character whose state is `own`. -/
def quote (t : Tokens) (own : Nat) (c : UInt8) : Except Fault Tokens :=
  if t.quotes = own then return { t with quotes := 0 }
  else if t.quotes = 0 then return { t with quotes := own }
  else t.copy c

def blank (t : Tokens) (c : UInt8) : Except Fault Tokens :=
  if t.quotes ≠ 0 then t.copy c
  else do
    let argbuf ← setAt t.argbuf t.arg_dst 0
    let argv ← setAt t.argv t.argc t.arg_ptr
    return { t with argbuf, argv, argc := t.argc + 1, arg_ptr := t.arg_dst + 1,
                    arg_dst := t.arg_dst + 1 }

def step (t : Tokens) (c : UInt8) : Except Fault Tokens :=
  if c = 39 then t.quote 1 c
  else if c = 34 then t.quote 2 c
  else if c = 32 then t.blank c
  else t.copy c

/-- The walk over the memory at `cmd`; running out of it is a read past its end. -/
def walk (t : Tokens) : Bytes → Except Fault Tokens
  | [] => .error (.read 0)
  | c :: cmd =>
    if c = 0 ∨ 32 ≤ t.argc ∨ 1023 ≤ t.arg_dst then return t
    else do
      let t ← t.step c
      t.walk cmd

def finish (t : Tokens) : Except Fault Tokens := do
  let argbuf ← setAt t.argbuf t.arg_dst 0
  if t.argc < 32 then
    let argv ← setAt t.argv t.argc t.arg_ptr
    return { t with argbuf, argv, argc := t.argc + 1 }
  else return { t with argbuf }

/-- The strings behind the first `argc` pointers. -/
def args (t : Tokens) : List Bytes := (t.argv.take t.argc).map fun p => cstr (t.argbuf.drop p)

end Tokens

/-- `handleCommand` of a text, up to the call that it hands `argc` and `argv`. -/
def tokenize (argbuf : Bytes) (argv : List Nat) (cmd : Bytes) : Except Fault Tokens := do
  let argbuf ← setAt argbuf 1023 0
  let t ← Tokens.walk { argbuf, argv } cmd
  t.finish

/-! ## The line without its buffers -/

/-- The finished arguments, the one being read and the quote it is in. -/
structure Line where
  done : List Bytes := []
  cur : Bytes := []
  quotes : Nat := 0

namespace Line

def push (l : Line) (c : UInt8) : Line := { l with cur := l.cur ++ [c] }

def quote (l : Line) (own : Nat) (c : UInt8) : Line :=
  if l.quotes = own then { l with quotes := 0 }
  else if l.quotes = 0 then { l with quotes := own }
  else l.push c

def blank (l : Line) (c : UInt8) : Line :=
  if l.quotes ≠ 0 then l.push c else { l with done := l.done ++ [l.cur], cur := [] }

def step (l : Line) (c : UInt8) : Line :=
  if c = 39 then l.quote 1 c
  else if c = 34 then l.quote 2 c
  else if c = 32 then l.blank c
  else l.push c

/-- The arguments behind each other, each with its terminator. -/
def closed (args : List Bytes) : Bytes := args.flatMap (· ++ [0])

def text (l : Line) : Bytes := closed l.done ++ l.cur

def walk (l : Line) : Bytes → Line
  | [] => l
  | c :: cmd =>
    if c = 0 ∨ 32 ≤ l.done.length ∨ 1023 ≤ l.text.length then l else (l.step c).walk cmd

def args (l : Line) : List Bytes := if l.done.length < 32 then l.done ++ [l.cur] else l.done

/-- Where each argument starts when they stand behind each other. -/
def starts : Nat → List Bytes → List Nat
  | _, [] => []
  | p, a :: args => p :: starts (p + (a.length + 1)) args

end Line

open Line (closed starts)

theorem closed_append (args : List Bytes) (a : Bytes) : closed (args ++ [a]) = closed args ++ a ++ [0] := by
  simp [closed]

theorem length_closed_cons (a : Bytes) (args : List Bytes) :
    (closed (a :: args)).length = a.length + 1 + (closed args).length := by
  rw [closed, List.flatMap_cons, List.length_append, List.length_append, List.length_singleton]
  rfl

theorem starts_append (p : Nat) (args : List Bytes) (a : Bytes) :
    starts p (args ++ [a]) = starts p args ++ [p + (closed args).length] := by
  induction args generalizing p with
  | nil => rfl
  | cons b args ih =>
    have hpos : p + (b.length + 1) + (closed args).length = p + (closed (b :: args)).length := by
      rw [length_closed_cons]
      omega
    rw [List.cons_append, starts, ih, hpos]
    rfl

@[simp] theorem starts_length (p : Nat) (args : List Bytes) : (starts p args).length = args.length := by
  induction args generalizing p with
  | nil => rfl
  | cons a args ih => simp [starts, ih]

/-- From its start, each argument is read back up to its terminator. -/
theorem cstr_at_starts {buf rest : Bytes} (front : Bytes) {args : List Bytes} (hbuf : buf = front ++ closed args ++ rest)
    (hnul : ∀ a ∈ args, 0 ∉ a) :
    (starts front.length args).map (fun p => cstr (buf.drop p)) = args := by
  induction args generalizing front with
  | nil => rfl
  | cons a args ih =>
    have hnext : buf = (front ++ a ++ [0]) ++ closed args ++ rest := by
      rw [hbuf]
      simp [closed]
    have hlen : (front ++ a ++ [0]).length = front.length + (a.length + 1) := by
      simp only [List.length_append, List.length_singleton]
      omega
    have hhere : buf.drop front.length = a ++ 0 :: (closed args ++ rest) := by
      rw [hbuf]
      simp [closed]
    have hrest := ih _ hnext fun b hb => hnul b (List.mem_cons_of_mem a hb)
    rw [hlen] at hrest
    rw [starts, List.map_cons, hrest, hhere, cstr_append_nul, cstr_eq_self_iff.mpr (hnul a List.mem_cons_self)]

/-- Behind each start stands an argument with its terminator. -/
theorem terminated_at_starts {buf rest : Bytes} (front : Bytes) {args : List Bytes} {p : Nat}
    (hbuf : buf = front ++ closed args ++ rest) (hp : p ∈ starts front.length args) :
    ∃ a tail, buf.drop p = a ++ 0 :: tail := by
  induction args generalizing front with
  | nil => cases hp
  | cons a args ih =>
    rcases List.mem_cons.mp hp with hhere | htail
    · refine ⟨a, closed args ++ rest, ?_⟩
      rw [hhere, hbuf]
      simp [closed]
    · have hnext : buf = (front ++ a ++ [0]) ++ closed args ++ rest := by
        rw [hbuf]
        simp [closed]
      have hlen : (front ++ a ++ [0]).length = front.length + (a.length + 1) := by
        simp only [List.length_append, List.length_singleton]
        omega
      rw [← hlen] at htail
      exact ih _ hnext htail

/-! ## The buffers hold the line -/

structure Represents (t : Tokens) (l : Line) : Prop where
  argbuf_length : t.argbuf.length = 1024
  argv_length : t.argv.length = 32
  filled : t.argbuf.take t.arg_dst = l.text
  dst : t.arg_dst = l.text.length
  room : l.text.length ≤ 1023
  argc : t.argc = l.done.length
  count : l.done.length ≤ 32
  argv : t.argv.take t.argc = starts 0 l.done
  start : t.arg_ptr = (closed l.done).length
  quotes : t.quotes = l.quotes
  done_nul : ∀ a ∈ l.done, 0 ∉ a
  cur_nul : 0 ∉ l.cur

/-- One more byte behind the filled part. -/
theorem Represents.store {t : Tokens} {l : Line} (h : Represents t l) (c : UInt8) :
    ∃ argbuf, setAt t.argbuf t.arg_dst c = .ok argbuf ∧ argbuf.length = 1024 ∧
      argbuf.take (t.arg_dst + 1) = l.text ++ [c] := by
  have hroom := h.room
  have hdst := h.dst
  have hin : t.arg_dst < t.argbuf.length := by
    rw [h.argbuf_length]
    omega
  refine ⟨_, setAt_ok hin c, ?_, ?_⟩
  · rw [List.length_set, h.argbuf_length]
  · rw [take_succ_set hin, h.filled]

theorem Represents.copy {t : Tokens} {l : Line} {c : UInt8} (h : Represents t l)
    (hroom : l.text.length < 1023) (hc : c ≠ 0) :
    ∃ t', t.copy c = .ok t' ∧ Represents t' (l.push c) := by
  obtain ⟨argbuf, hstore, hlen, hfilled⟩ := h.store c
  have htext : (l.push c).text = l.text ++ [c] := (List.append_assoc _ _ _).symm
  have hsize : (l.push c).text.length = l.text.length + 1 := by
    rw [htext, List.length_append, List.length_singleton]
  refine ⟨{ t with argbuf, arg_dst := t.arg_dst + 1 }, ?_, ?_⟩
  · rw [Tokens.copy, hstore]
    rfl
  · exact {
      argbuf_length := hlen
      argv_length := h.argv_length
      filled := by rw [htext]; exact hfilled
      dst := by rw [hsize, ← h.dst]
      room := by omega
      argc := h.argc
      count := h.count
      argv := h.argv
      start := h.start
      quotes := h.quotes
      done_nul := h.done_nul
      cur_nul := by
        intro hmem
        rcases List.mem_append.mp hmem with hold | hnew
        · exact h.cur_nul hold
        · exact hc (List.mem_singleton.mp hnew).symm }

theorem Represents.reQuote {t : Tokens} {l : Line} (h : Represents t l) (q : Nat) :
    Represents { t with quotes := q } { l with quotes := q } :=
  { argbuf_length := h.argbuf_length, argv_length := h.argv_length, filled := h.filled, dst := h.dst,
    room := h.room, argc := h.argc, count := h.count, argv := h.argv, start := h.start, quotes := rfl,
    done_nul := h.done_nul, cur_nul := h.cur_nul }

theorem Represents.quote {t : Tokens} {l : Line} {c : UInt8} (h : Represents t l) (own : Nat)
    (hroom : l.text.length < 1023) (hc : c ≠ 0) :
    ∃ t', t.quote own c = .ok t' ∧ Represents t' (l.quote own c) := by
  rw [Tokens.quote, Line.quote, h.quotes]
  by_cases hown : l.quotes = own
  · rw [if_pos hown, if_pos hown]
    exact ⟨_, rfl, h.reQuote 0⟩
  · rw [if_neg hown, if_neg hown]
    by_cases hnone : l.quotes = 0
    · rw [if_pos hnone, if_pos hnone]
      exact ⟨_, rfl, h.reQuote own⟩
    · rw [if_neg hnone, if_neg hnone]
      exact h.copy hroom hc

/-- What the terminator of the argument being read makes of both arrays. -/
theorem Represents.close {t : Tokens} {l : Line} (h : Represents t l) (hcount : l.done.length < 32) :
    ∃ argbuf argv, setAt t.argbuf t.arg_dst 0 = .ok argbuf ∧ setAt t.argv t.argc t.arg_ptr = .ok argv ∧
      argbuf.length = 1024 ∧ argv.length = 32 ∧
      argbuf.take (t.arg_dst + 1) = closed (l.done ++ [l.cur]) ∧
      argv.take (t.argc + 1) = starts 0 (l.done ++ [l.cur]) := by
  obtain ⟨argbuf, hstore, hlen, hfilled⟩ := h.store 0
  have hargc := h.argc
  have hin : t.argc < t.argv.length := by
    rw [h.argv_length]
    omega
  refine ⟨argbuf, _, hstore, setAt_ok hin t.arg_ptr, hlen, ?_, ?_, ?_⟩
  · rw [List.length_set, h.argv_length]
  · rw [hfilled, closed_append]
    rfl
  · rw [take_succ_set hin, h.argv, starts_append, h.start, Nat.zero_add]

theorem Represents.blank {t : Tokens} {l : Line} {c : UInt8} (h : Represents t l)
    (hcount : l.done.length < 32) (hroom : l.text.length < 1023) (hc : c ≠ 0) :
    ∃ t', t.blank c = .ok t' ∧ Represents t' (l.blank c) := by
  rw [Tokens.blank, Line.blank, ← h.quotes]
  by_cases hq : t.quotes ≠ 0
  · rw [if_pos hq, if_pos hq]
    exact h.copy hroom hc
  · rw [if_neg hq, if_neg hq]
    obtain ⟨argbuf, argv, hstore, hptr, hlen, hargv, hfilled, hstarts⟩ := h.close hcount
    have hsize : (closed (l.done ++ [l.cur])).length = l.text.length + 1 := by
      rw [closed_append, List.length_append, List.length_singleton]
      rfl
    refine ⟨{ t with argbuf, argv, argc := t.argc + 1, arg_ptr := t.arg_dst + 1,
                     arg_dst := t.arg_dst + 1 }, ?_, ?_⟩
    · rw [hstore, ok_bind, hptr]
      rfl
    · exact {
        argbuf_length := hlen
        argv_length := hargv
        filled := by rw [hfilled, Line.text, List.append_nil]
        dst := by rw [Line.text, List.append_nil, hsize, ← h.dst]
        room := by rw [Line.text, List.append_nil, hsize]; omega
        argc := by rw [List.length_append, List.length_singleton, ← h.argc]
        count := by rw [List.length_append, List.length_singleton]; omega
        argv := hstarts
        start := by rw [hsize, ← h.dst]
        quotes := rfl
        done_nul := by
          intro a ha
          rcases List.mem_append.mp ha with hold | hnew
          · exact h.done_nul a hold
          · rw [List.mem_singleton.mp hnew]
            exact h.cur_nul
        cur_nul := List.not_mem_nil }

theorem Represents.step {t : Tokens} {l : Line} {c : UInt8} (h : Represents t l)
    (hcount : l.done.length < 32) (hroom : l.text.length < 1023) (hc : c ≠ 0) :
    ∃ t', t.step c = .ok t' ∧ Represents t' (l.step c) := by
  rw [Tokens.step, Line.step]
  split_ifs
  · exact h.quote 1 hroom hc
  · exact h.quote 2 hroom hc
  · exact h.blank hcount hroom hc
  · exact h.copy hroom hc

/-- Over a C string the walk stays in its memory and the buffers follow the line. -/
theorem Represents.walk {t : Tokens} {l : Line} {cmd : Bytes} (h : Represents t l) (hcmd : 0 ∈ cmd) :
    ∃ t', t.walk cmd = .ok t' ∧ Represents t' (l.walk cmd) := by
  induction cmd generalizing t l with
  | nil => cases hcmd
  | cons c cmd ih =>
    rw [Tokens.walk, Line.walk, h.argc, h.dst]
    by_cases hstop : c = 0 ∨ 32 ≤ l.done.length ∨ 1023 ≤ l.text.length
    · rw [if_pos hstop, if_pos hstop]
      exact ⟨t, rfl, h⟩
    · rw [if_neg hstop, if_neg hstop]
      have hc : c ≠ 0 := fun hc => hstop (.inl hc)
      obtain ⟨t', hstep, ht'⟩ := h.step (c := c) (by omega) (by omega) hc
      have hrest : 0 ∈ cmd := (List.mem_cons.mp hcmd).resolve_left (Ne.symm hc)
      rw [hstep, ok_bind]
      exact ih ht' hrest

/-- The two arrays an invocation finds. -/
theorem represents_start {argbuf : Bytes} {argv : List Nat} (hbuf : argbuf.length = 1024)
    (hargv : argv.length = 32) : Represents { argbuf, argv } {} :=
  { argbuf_length := hbuf, argv_length := hargv, filled := rfl, dst := rfl, room := by decide,
    argc := rfl, count := by decide, argv := rfl, start := rfl, quotes := rfl,
    done_nul := fun _ h => (nomatch h), cur_nul := fun h => (nomatch h) }

/-- What a command leaves: its arguments behind each other at the front of `argbuf`, where the first
`argc` pointers say. -/
structure Handed (t : Tokens) (args : List Bytes) : Prop where
  argbuf_length : t.argbuf.length = 1024
  argv_length : t.argv.length = 32
  argc : t.argc = args.length
  count : args.length ≤ 32
  pos : 0 < args.length
  closed : ∃ rest, t.argbuf = closed args ++ rest
  argv : t.argv.take t.argc = starts 0 args
  nul : ∀ a ∈ args, 0 ∉ a

theorem Represents.finish {t : Tokens} {l : Line} (h : Represents t l) :
    ∃ t', t.finish = .ok t' ∧ Handed t' l.args := by
  rw [Tokens.finish, Line.args, h.argc]
  by_cases hcount : l.done.length < 32
  · obtain ⟨argbuf, argv, hstore, hptr, hlen, hargv, hfilled, hstarts⟩ := h.close hcount
    refine ⟨{ t with argbuf, argv, argc := t.argc + 1 }, ?_, ?_⟩
    · rw [hstore, ok_bind, if_pos hcount, ← h.argc, hptr]
      rfl
    · rw [if_pos hcount]
      exact {
        argbuf_length := hlen
        argv_length := hargv
        argc := by rw [List.length_append, List.length_singleton, ← h.argc]
        count := by rw [List.length_append, List.length_singleton]; omega
        pos := by rw [List.length_append, List.length_singleton]; omega
        closed := ⟨argbuf.drop (t.arg_dst + 1), by rw [← hfilled, List.take_append_drop]⟩
        argv := hstarts
        nul := by
          intro a ha
          rcases List.mem_append.mp ha with hold | hnew
          · exact h.done_nul a hold
          · rw [List.mem_singleton.mp hnew]
            exact h.cur_nul }
  · obtain ⟨argbuf, hstore, hlen, hfilled⟩ := h.store 0
    have hfull := h.count
    refine ⟨{ t with argbuf }, ?_, ?_⟩
    · rw [hstore, ok_bind, if_neg hcount, h.argc]
      rfl
    · rw [if_neg hcount]
      have hclosed : argbuf = closed l.done ++ (l.cur ++ [0] ++ argbuf.drop (t.arg_dst + 1)) := by
        rw [← List.append_assoc, ← List.append_assoc]
        exact ((congrArg (· ++ _) hfilled).symm.trans (List.take_append_drop _ _)).symm
      exact {
        argbuf_length := hlen
        argv_length := h.argv_length
        argc := h.argc
        count := h.count
        pos := by omega
        closed := ⟨_, hclosed⟩
        argv := h.argv
        nul := h.done_nul }

theorem tokenize_handed {argbuf : Bytes} {argv : List Nat} {cmd : Bytes} (hbuf : argbuf.length = 1024)
    (hargv : argv.length = 32) (hcmd : 0 ∈ cmd) :
    ∃ t, tokenize argbuf argv cmd = .ok t ∧ Handed t (({} : Line).walk cmd).args := by
  have hlast : 1023 < argbuf.length := by
    rw [hbuf]
    decide
  have hlen : (argbuf.set 1023 0).length = 1024 := by rw [List.length_set, hbuf]
  obtain ⟨t, hwalk, ht⟩ := (represents_start hlen hargv).walk hcmd
  obtain ⟨t', hfinish, hhanded⟩ := ht.finish
  refine ⟨t', ?_, hhanded⟩
  rw [tokenize, setAt_ok hlast, ok_bind, hwalk, ok_bind, hfinish]

theorem Handed.args {t : Tokens} {args : List Bytes} (h : Handed t args) : t.args = args := by
  obtain ⟨rest, hrest⟩ := h.closed
  have hread := cstr_at_starts [] hrest h.nul
  rw [Tokens.args, h.argv]
  exact hread

theorem Handed.terminated {t : Tokens} {args : List Bytes} (h : Handed t args) {i : Nat} (hi : i < t.argc) :
    ∃ p e, t.argv[i]? = some p ∧ p ≤ e ∧ e < 1024 ∧ t.argbuf[e]? = some 0 := by
  obtain ⟨rest, hrest⟩ := h.closed
  have hin : i < (starts 0 args).length := by rw [starts_length, ← h.argc]; exact hi
  have hptr : t.argv[i]? = some (starts 0 args)[i] := by
    rw [← List.getElem?_take_of_lt hi, h.argv, List.getElem?_eq_getElem hin]
  obtain ⟨a, tail, hat⟩ := terminated_at_starts [] hrest (List.getElem_mem hin)
  have hnul : t.argbuf[(starts 0 args)[i] + a.length]? = some 0 := by
    rw [← List.getElem?_drop, hat]
    simp
  refine ⟨_, _, hptr, Nat.le_add_right _ a.length, ?_, hnul⟩
  rw [← h.argbuf_length]
  exact (List.getElem?_eq_some_iff.mp hnul).1

/-! ## Quoted arguments -/

/-- An argument and a quote character to enclose it in. -/
structure Quoted where
  mark : UInt8
  arg : Bytes
  mark_eq : mark = 39 ∨ mark = 34
  mark_notMem : mark ∉ arg
  nul : 0 ∉ arg

namespace Quoted

def text (x : Quoted) : Bytes := x.mark :: x.arg ++ [x.mark]

/-- What `quotes` is between the two marks. -/
def state (x : Quoted) : Nat := if x.mark = 39 then 1 else 2

/-- The arguments enclosed, with single blanks between them. -/
def joined (xs : List Quoted) : Bytes := [32].intercalate (xs.map text)

end Quoted

theorem Quoted.state_ne_zero (x : Quoted) : x.state ≠ 0 := by
  rw [Quoted.state]
  split_ifs <;> decide

theorem Line.step_mark (l : Line) (x : Quoted) : l.step x.mark = l.quote x.state x.mark := by
  rcases x.mark_eq with hm | hm
  · simp [Line.step, Quoted.state, hm]
  · simp [Line.step, Quoted.state, hm]

theorem Line.step_open {l : Line} (x : Quoted) (h : l.quotes = 0) :
    l.step x.mark = ⟨l.done, l.cur, x.state⟩ := by
  rw [Line.step_mark, Line.quote, h, if_neg (Ne.symm x.state_ne_zero), if_pos rfl]

theorem Line.step_close {l : Line} (x : Quoted) (h : l.quotes = x.state) :
    l.step x.mark = ⟨l.done, l.cur, 0⟩ := by
  rw [Line.step_mark, Line.quote, if_pos h]

/-- Between the marks every other byte is copied. -/
theorem Line.step_inside {l : Line} {x : Quoted} {c : UInt8} (h : l.quotes = x.state) (hc : c ≠ x.mark) :
    l.step c = l.push c := by
  rcases x.mark_eq with hm | hm
  · have hq : l.quotes = 1 := by rw [h, Quoted.state, if_pos hm]
    rw [hm] at hc
    simp [Line.step, Line.quote, Line.blank, hq, hc]
  · have hq : l.quotes = 2 := by rw [h, Quoted.state, hm]; rfl
    rw [hm] at hc
    simp [Line.step, Line.quote, Line.blank, hq, hc]

theorem Line.walk_cons {l : Line} {c : UInt8} (cmd : Bytes) (hc : c ≠ 0) (hcount : l.done.length < 32)
    (hroom : l.text.length < 1023) : l.walk (c :: cmd) = (l.step c).walk cmd := by
  have hgo : ¬ (c = 0 ∨ 32 ≤ l.done.length ∨ 1023 ≤ l.text.length) := by
    intro h
    rcases h with h | h | h
    · exact hc h
    · omega
    · omega
  rw [Line.walk, if_neg hgo]

theorem Line.walk_inside {l : Line} {x : Quoted} (bs rest : Bytes) (hq : l.quotes = x.state)
    (hmark : x.mark ∉ bs) (hnul : 0 ∉ bs) (hcount : l.done.length < 32)
    (hroom : l.text.length + bs.length < 1023) :
    l.walk (bs ++ rest) = ({ l with cur := l.cur ++ bs } : Line).walk rest := by
  induction bs generalizing l with
  | nil => rw [List.nil_append, List.append_nil]
  | cons c bs ih =>
    rw [List.length_cons] at hroom
    have hc : c ≠ 0 := fun h => hnul (h ▸ List.mem_cons_self)
    have hm : c ≠ x.mark := fun h => hmark (h ▸ List.mem_cons_self)
    have hsize : (l.push c).text.length = l.text.length + 1 := by
      simp only [Line.push, Line.text, List.length_append, List.length_singleton]
      omega
    rw [List.cons_append, Line.walk_cons _ hc hcount (by omega), Line.step_inside hq hm,
      ih (l := l.push c) hq (fun h => hmark (List.mem_cons_of_mem c h)) (fun h => hnul (List.mem_cons_of_mem c h))
        hcount (by omega)]
    simp [Line.push]

theorem Line.walk_quoted {l : Line} (x : Quoted) (rest : Bytes) (hq : l.quotes = 0)
    (hcount : l.done.length < 32) (hroom : l.text.length + x.arg.length < 1023) :
    l.walk (x.text ++ rest) = ({ l with cur := l.cur ++ x.arg } : Line).walk rest := by
  have hmark : x.mark ≠ 0 := by
    rcases x.mark_eq with hm | hm
    · rw [hm]; decide
    · rw [hm]; decide
  have hsplit : x.text ++ rest = x.mark :: (x.arg ++ (x.mark :: rest)) := by simp [Quoted.text]
  have hsize : (⟨l.done, l.cur ++ x.arg, x.state⟩ : Line).text.length < 1023 := by
    simp only [Line.text, List.length_append] at hroom ⊢
    omega
  have hinside := Line.walk_inside (l := ⟨l.done, l.cur, x.state⟩) x.arg (x.mark :: rest) rfl
    x.mark_notMem x.nul hcount hroom
  have hclose : (⟨l.done, l.cur ++ x.arg, x.state⟩ : Line).step x.mark = ⟨l.done, l.cur ++ x.arg, 0⟩ :=
    Line.step_close x rfl
  rw [hsplit, Line.walk_cons _ hmark hcount (by omega), Line.step_open x hq, hinside,
    Line.walk_cons (l := ⟨l.done, l.cur ++ x.arg, x.state⟩) _ hmark hcount hsize, hclose, hq]

theorem Quoted.joined_cons (x y : Quoted) (xs : List Quoted) :
    joined (x :: y :: xs) = x.text ++ 32 :: joined (y :: xs) := by
  rw [joined, List.map_cons, List.map_cons, List.intercalate_cons_cons]
  simp [joined]

/-- Over the enclosed arguments the line takes up each of them. -/
theorem Line.walk_joined {l : Line} (x : Quoted) (xs : List Quoted) (rest : Bytes) (hq : l.quotes = 0)
    (hcur : l.cur = []) (hcount : l.done.length + (xs.length + 1) ≤ 32)
    (hroom : (closed l.done).length + ((x :: xs).map fun x => x.arg.length).sum + xs.length ≤ 1022) :
    (l.walk (Quoted.joined (x :: xs) ++ 0 :: rest)).args = l.done ++ (x :: xs).map (·.arg) := by
  induction xs generalizing l x with
  | nil =>
    have hsize : l.text.length + x.arg.length < 1023 := by
      simp only [Line.text, hcur, List.length_append, List.length_nil, List.map_cons, List.map_nil,
        List.sum_cons, List.sum_nil] at hroom ⊢
      omega
    have hone : Quoted.joined [x] = x.text := by simp [Quoted.joined]
    have hlast : l.done.length < 32 := by
      rw [List.length_nil] at hcount
      omega
    rw [hone, Line.walk_quoted x _ hq hlast hsize, Line.walk, if_pos (.inl rfl), Line.args,
      if_pos hlast, hcur]
    rfl
  | cons y ys ih =>
    rw [List.length_cons] at hcount hroom
    rw [List.map_cons, List.sum_cons] at hroom
    have hsize : l.text.length + x.arg.length < 1023 := by
      rw [Line.text, hcur, List.append_nil]
      omega
    have hsize' : (⟨l.done, x.arg, 0⟩ : Line).text.length < 1023 := by
      change (closed l.done ++ x.arg).length < 1023
      rw [List.length_append]
      omega
    have hopen : l.done.length < 32 := by omega
    have hread := Line.walk_quoted x (32 :: (Quoted.joined (y :: ys) ++ 0 :: rest)) hq hopen hsize
    rw [hcur, hq, List.nil_append] at hread
    have hblank : (⟨l.done, x.arg, 0⟩ : Line).step 32 = ⟨l.done ++ [x.arg], [], 0⟩ := rfl
    have hcount' : (l.done ++ [x.arg]).length + (ys.length + 1) ≤ 32 := by
      rw [List.length_append, List.length_singleton]
      omega
    have hroom' : (closed (l.done ++ [x.arg])).length + ((y :: ys).map fun x => x.arg.length).sum +
        ys.length ≤ 1022 := by
      rw [closed_append, List.length_append, List.length_append, List.length_singleton]
      omega
    have hcons := Line.walk_cons (l := ⟨l.done, x.arg, 0⟩) (Quoted.joined (y :: ys) ++ 0 :: rest)
      (c := 32) (by decide) hopen hsize'
    rw [Quoted.joined_cons, List.append_assoc, List.cons_append, hread, hcons, hblank,
      ih y rfl rfl hcount' hroom']
    simp

/-- Whatever the static arrays hold: a command of any length is split without leaving its memory or
either array, every pointer handed on is at a terminated string of `argbuf`; and enclosed arguments
that fit are handed on as they are. -/
theorem command_line (argbuf : Bytes) (argv : List Nat) (hbuf : argbuf.length = 1024)
    (hargv : argv.length = 32) :
    (∀ cmd : Bytes, 0 ∈ cmd → ∃ t, tokenize argbuf argv cmd = .ok t ∧ t.argbuf.length = 1024 ∧
      t.argv.length = 32 ∧ 0 < t.argc ∧ t.argc ≤ 32 ∧
      ∀ i < t.argc, ∃ p e, t.argv[i]? = some p ∧ p ≤ e ∧ e < 1024 ∧ t.argbuf[e]? = some 0) ∧
    (∀ (xs : List Quoted) (rest : Bytes), 0 < xs.length → xs.length ≤ 32 →
      (xs.map fun x => x.arg.length).sum + (xs.length - 1) ≤ 1022 →
      ∃ t, tokenize argbuf argv (Quoted.joined xs ++ 0 :: rest) = .ok t ∧ t.argc = xs.length ∧
        t.args = xs.map (·.arg)) := by
  constructor
  · intro cmd hcmd
    obtain ⟨t, htokenize, ht⟩ := tokenize_handed hbuf hargv hcmd
    have hargc := ht.argc
    have hpos := ht.pos
    have hcount := ht.count
    exact ⟨t, htokenize, ht.argbuf_length, ht.argv_length, by omega, by omega, fun i hi => ht.terminated hi⟩
  · intro xs rest hpos hcount hroom
    cases xs with
    | nil => cases hpos
    | cons x xs =>
      have hcmd : 0 ∈ Quoted.joined (x :: xs) ++ 0 :: rest := List.mem_append_right _ List.mem_cons_self
      obtain ⟨t, htokenize, ht⟩ := tokenize_handed hbuf hargv hcmd
      rw [List.length_cons] at hcount hroom
      have hargs := Line.walk_joined (l := {}) x xs rest rfl rfl (by simpa using hcount)
        (by simpa [closed] using hroom)
      rw [hargs, List.nil_append] at ht
      refine ⟨t, htokenize, ?_, ht.args⟩
      rw [ht.argc, List.length_map]

theorem command_line_give :
    (∃ t, tokenize (List.replicate 1024 7) (List.replicate 32 5) (ascii "give 'a b' 2" ++ [0]) = .ok t ∧
      t.argbuf.length = 1024 ∧ t.argv.length = 32 ∧ 0 < t.argc ∧ t.argc ≤ 32 ∧
      ∀ i < t.argc, ∃ p e, t.argv[i]? = some p ∧ p ≤ e ∧ e < 1024 ∧ t.argbuf[e]? = some 0) ∧
    (∃ t, tokenize (List.replicate 1024 7) (List.replicate 32 5)
        (Quoted.joined [⟨39, ascii "a b", by decide, by decide, by decide⟩, ⟨34, [], by decide, by decide, by decide⟩] ++
          0 :: []) = .ok t ∧ t.argc = 2 ∧ t.args = [ascii "a b", []]) :=
  ⟨(command_line (List.replicate 1024 7) (List.replicate 32 5) List.length_replicate
      List.length_replicate).1 _ (by decide),
    (command_line (List.replicate 1024 7) (List.replicate 32 5) List.length_replicate
      List.length_replicate).2 [⟨39, ascii "a b", by decide, by decide, by decide⟩,
        ⟨34, [], by decide, by decide, by decide⟩] [] (by decide) (by decide) (by decide)⟩

end Yagips.Commands

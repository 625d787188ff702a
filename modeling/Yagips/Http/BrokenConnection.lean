import Yagips.Http.Refusing

/-!
# A connection that breaks

The read loop tries a failed `recv` again, and the response loop a failed `send`, with the
descriptor closed and set to -1. Neither changes what its loop waits for. So the server is back
at `accept` only where the connection is done before a call of its last kind fails for good.
-/
namespace Yagips.Http.BrokenConnection

open Yagips.Lib
open Yagips.Http.Request
open Yagips.Http.Serve
open Yagips.Http.Chunking
open Yagips.Http.Reading
open Yagips.Http.Refusing

/-- What a call comes back with, where it is `recv` and where it is `send`: the bytes that were
taken, or `none` for -1. -/
structure Outcome where
  recv : Recv
  send : Option Nat

def Outcome.fails (o : Outcome) : Prop := o.recv = .failed ∧ o.send = none

/-- Where the server is between two calls. In the response loop, `cfd` tells whether the descriptor
is one, and `left` is `prev_len`. -/
inductive Place where
  | reading (pkt : Bytes) (actualLen : Nat)
  | sending (cfd : Bool) (left : Nat)
  | accepting

section Server

variable (pkg : Package) (endpoint : Nat → Option Bytes → Except Fault Answer)

/-- From the end of the read loop to the response loop. -/
def write (received : Received) : Except Fault Place := do
  let text ← response pkg endpoint (← respond received)
  return if text = [] then .accepting else .sending true text.length

/-- What follows one call. A `send` on the descriptor -1 fails. -/
def step : Place → Outcome → Except Fault Place
  | .reading pkt actualLen, o =>
    match o.recv with
    | .closed => return .accepting
    | .failed => return .reading pkt actualLen
    | .data chunk => do
      let pkt ← storeAt pkt actualLen chunk
      let prevLen := actualLen
      let actualLen := actualLen + chunk.length
      let parsed := phrParseRequest pkt prevLen
      if -1 ≤ parsed.ret then write pkg endpoint (.parsed pkt actualLen parsed)
      else if parsed.ret < -2 then write pkg endpoint (.writeRsp 500 parsed)
      else if bufLen ≤ actualLen then write pkg endpoint (.writeRsp 413 parsed)
      else return .reading pkt actualLen
  | .sending false left, _ => return .sending false left
  | .sending true left, o =>
    match o.send with
    | none => return .sending false left
    | some sent => return if left ≤ sent then .accepting else .sending true (left - sent)
  | .accepting, _ => return .accepting

/-- Where the server is after a number of calls on one connection. -/
def after (prior : Bytes) (o : Nat → Outcome) : Nat → Except Fault Place
  | 0 => .ok (.reading prior 0)
  | k + 1 => do step pkg endpoint (← after prior o k) (o k)

def GoesBack (prior : Bytes) (o : Nat → Outcome) : Prop :=
  ∃ k, after pkg endpoint prior o k = .ok .accepting

end Server

/-! ## When it goes back -/

/-- The first `k` calls have received `got`, and none of them decided. -/
inductive Undecided (prior : Bytes) (o : Nat → Outcome) : Nat → Bytes → Prop where
  | start : Undecided prior o 0 []
  | retry {k : Nat} {got : Bytes} (h : Undecided prior o k got) (hfailed : (o k).recv = .failed) :
      Undecided prior o (k + 1) got
  | more {k : Nat} {got chunk : Bytes} (h : Undecided prior o k got)
      (hdata : (o k).recv = .data chunk) (hret : (call prior got chunk).ret = -2)
      (hroom : (got ++ chunk).length < bufLen) : Undecided prior o (k + 1) (got ++ chunk)

/-- `recv` gives a byte or more where it does not end, and no more than it is asked for. -/
def Kept (prior : Bytes) (o : Nat → Outcome) : Prop :=
  ∀ k got chunk, Undecided prior o k got → (o k).recv = .data chunk →
    chunk ≠ [] ∧ (got ++ chunk).length ≤ bufLen

/-- What is sent by `n` calls from the `k`-th on. -/
def sentBy (o : Nat → Outcome) (k n : Nat) : Nat :=
  ((List.range n).map fun i => (o (k + i)).send.getD 0).sum

/-- From the `k`-th call on, no `send` fails before so much is sent. -/
def Sends (o : Nat → Outcome) (k left : Nat) : Prop :=
  ∃ n, (∀ i < n, (o (k + i)).send ≠ none) ∧ left ≤ sentBy o k n

/-- The client leaves before its request is decided. -/
def ClientLeaves (prior : Bytes) (o : Nat → Outcome) : Prop :=
  ∃ k got, Undecided prior o k got ∧ (o k).recv = .closed

/-- A call decides, the response to it is built, and all of it is sent. -/
def ResponseSent (pkg : Package) (endpoint : Nat → Option Bytes → Except Fault Answer)
    (prior : Bytes) (o : Nat → Outcome) : Prop :=
  ∃ k got chunk served text, Undecided prior o k got ∧ (o k).recv = .data chunk ∧
    (-1 ≤ (call prior got chunk).ret ∨ bufLen ≤ (got ++ chunk).length) ∧
    respond (decided prior got chunk) = .ok served ∧ response pkg endpoint served = .ok text ∧
    Sends o (k + 1) text.length

section

variable {pkg : Package} {endpoint : Nat → Option Bytes → Except Fault Answer} {prior : Bytes}
  {o : Nat → Outcome}

theorem step_data {got chunk : Bytes} {x : Outcome} (hprior : prior.length = bufLen)
    (hdata : x.recv = .data chunk) (hsize : (got ++ chunk).length ≤ bufLen) :
    step pkg endpoint (.reading (filled prior got) got.length) x =
      if -1 ≤ (call prior got chunk).ret ∨ bufLen ≤ (got ++ chunk).length then
        write pkg endpoint (decided prior got chunk)
      else .ok (.reading (filled prior (got ++ chunk)) (got ++ chunk).length) := by
  simp only [step, hdata]
  rw [storeAt_filled (hsize.trans hprior.ge), ok_bind]
  change (if -1 ≤ (call prior got chunk).ret then _ else if (call prior got chunk).ret < -2 then _
    else _) = _
  rw [← List.length_append, decided]
  rcases ret_cases (filled prior (got ++ chunk)) got.length with h | h
  · have hret : (call prior got chunk).ret = -2 := h
    have hmore : ¬ -1 ≤ (call prior got chunk).ret := by omega
    rw [if_neg hmore, if_neg (by omega), if_neg hmore]
    by_cases hfull : bufLen ≤ (got ++ chunk).length
    · rw [if_pos hfull, if_pos (Or.inr hfull)]
      rfl
    · rw [if_neg hfull, if_neg (by omega)]
      rfl
  · have hret : -1 ≤ (call prior got chunk).ret := h
    rw [if_pos hret, if_pos (Or.inl hret), if_pos hret]
    rfl

theorem after_succ {k : Nat} {p : Place} (h : after pkg endpoint prior o k = .ok p) :
    after pkg endpoint prior o (k + 1) = step pkg endpoint p (o k) := by
  rw [after, h]
  rfl

theorem after_undecided (hprior : prior.length = bufLen) (hkept : Kept prior o) {k : Nat}
    {got : Bytes} (h : Undecided prior o k got) :
    after pkg endpoint prior o k = .ok (.reading (filled prior got) got.length) := by
  induction h with
  | start => rfl
  | retry _ hfailed ih =>
    rw [after_succ ih]
    simp only [step, hfailed]
    rfl
  | more hu hdata hret hroom ih =>
    rw [after_succ ih, step_data hprior hdata (hkept _ _ _ hu hdata).2, if_neg]
    intro hnow
    rw [hret] at hnow
    omega

/-- What `recv` came back with in the first `k` calls. -/
def received (o : Nat → Outcome) (k : Nat) : List Recv := (List.range k).map fun i => (o i).recv

theorem received_succ (k : Nat) (rest : List Recv) :
    received o (k + 1) ++ rest = received o k ++ (o k).recv :: rest := by
  rw [received, List.range_succ, List.map_append, List.map_singleton, List.append_assoc,
    List.singleton_append, received]

theorem undecided_decides {k : Nat} {got g c : Bytes} (h : Undecided prior o k got)
    {rest : List Recv} (hd : Decides prior got rest g c) :
    Decides prior [] (received o k ++ rest) g c := by
  induction h generalizing rest with
  | start => exact hd
  | retry _ hfailed ih =>
    rw [received_succ, hfailed]
    exact ih (.retry hd)
  | more _ hdata hret hroom ih =>
    rw [received_succ, hdata]
    exact ih (.later hret hroom hd)

theorem undecided_offered (hkept : Kept prior o) {k : Nat} {got : Bytes} (h : Undecided prior o k got)
    {rest : List Recv} (hoffered : Offered got.length rest) : Offered 0 (received o k ++ rest) := by
  induction h generalizing rest with
  | start => exact hoffered
  | retry _ hfailed ih =>
    rw [received_succ, hfailed]
    exact ih hoffered
  | more hu hdata hret hroom ih =>
    rw [received_succ, hdata]
    obtain ⟨hne, hsize⟩ := hkept _ _ _ hu hdata
    rw [List.length_append] at hoffered hsize
    exact ih ⟨hne, hsize, hoffered⟩

/-- The call that decides leaves what the read loop by itself leaves of the same calls. -/
theorem serve_received (hprior : prior.length = bufLen) (hkept : Kept prior o) {k : Nat}
    {got chunk : Bytes} (h : Undecided prior o k got) (hdata : (o k).recv = .data chunk)
    (hnow : -1 ≤ (call prior got chunk).ret ∨ bufLen ≤ (got ++ chunk).length) :
    serve prior (received o (k + 1)) = respond (decided prior got chunk) := by
  obtain ⟨hne, hsize⟩ := hkept _ _ _ h hdata
  rw [List.length_append] at hsize
  have hlast : Offered got.length [.data chunk] := ⟨hne, hsize, trivial⟩
  rw [← List.append_nil (received o (k + 1)), received_succ, hdata]
  exact (serve_decided hprior (undecided_offered hkept h hlast) (undecided_decides h (.now hnow))).1

theorem sentBy_succ (k n : Nat) :
    sentBy o k (n + 1) = (o k).send.getD 0 + sentBy o (k + 1) n := by
  rw [sentBy, List.range_succ_eq_map, List.map_cons, List.sum_cons, List.map_map, sentBy]
  refine congrArg ((o k).send.getD 0 + ·) (congrArg List.sum (List.map_congr_left fun i _ => ?_))
  rw [Function.comp_apply, Nat.succ_eq_add_one, Nat.add_right_comm, ← Nat.add_assoc]

theorem sentBy_snoc (k n : Nat) :
    sentBy o k (n + 1) = sentBy o k n + (o (k + n)).send.getD 0 := by
  rw [sentBy, List.range_succ, List.map_append, List.sum_append, List.map_singleton,
    List.sum_singleton, sentBy]

/-- The response loop ends once everything is sent. -/
theorem sends_back {k left : Nat} (h : Sends o k left) (hleft : 0 < left)
    (hafter : after pkg endpoint prior o k = .ok (.sending true left)) :
    GoesBack pkg endpoint prior o := by
  obtain ⟨n, hok, hle⟩ := h
  induction n generalizing k left with
  | zero => exact absurd hle (Nat.not_le.2 hleft)
  | succ n ih =>
    obtain ⟨sent, hsent⟩ := Option.ne_none_iff_exists'.1 (hok 0 (Nat.succ_pos n))
    have hnext := after_succ hafter
    rw [Nat.add_zero] at hsent
    simp only [step, hsent] at hnext
    by_cases hall : left ≤ sent
    · rw [if_pos hall] at hnext
      exact ⟨k + 1, hnext⟩
    · rw [if_neg hall] at hnext
      rw [sentBy_succ, hsent, Option.getD_some] at hle
      refine ih (by omega) hnext (fun i hi => ?_) (by omega)
      rw [Nat.add_right_comm, Nat.add_assoc]
      exact hok (i + 1) (Nat.succ_lt_succ hi)

theorem write_ok_iff {received : Received} {p : Place} :
    write pkg endpoint received = .ok p ↔
      ∃ served text, respond received = .ok served ∧ response pkg endpoint served = .ok text ∧
        p = if text = [] then .accepting else .sending true text.length := by
  rw [write]
  cases hserved : respond received with
  | error f => simp [bind, Except.bind]
  | ok served =>
    rw [ok_bind]
    cases htext : response pkg endpoint served with
    | error f => simp [bind, Except.bind, htext]
    | ok text => simp [ok_bind, htext, pure, Except.pure, eq_comm]

/-- After `k` calls, `left` of a response is still to be sent and no `send` has failed. -/
def Sending (pkg : Package) (endpoint : Nat → Option Bytes → Except Fault Answer) (prior : Bytes)
    (o : Nat → Outcome) (k left : Nat) : Prop :=
  ∃ k₀ n got chunk served text, Undecided prior o k₀ got ∧ (o k₀).recv = .data chunk ∧
    (-1 ≤ (call prior got chunk).ret ∨ bufLen ≤ (got ++ chunk).length) ∧
    respond (decided prior got chunk) = .ok served ∧ response pkg endpoint served = .ok text ∧
    k = k₀ + 1 + n ∧ (∀ i < n, (o (k₀ + 1 + i)).send ≠ none) ∧
    sentBy o (k₀ + 1) n + left = text.length

/-- What has happened by the time the server is at a place. -/
def Accounts (pkg : Package) (endpoint : Nat → Option Bytes → Except Fault Answer) (prior : Bytes)
    (o : Nat → Outcome) (k : Nat) : Place → Prop
  | .reading pkt len =>
    ∃ got, Undecided prior o k got ∧ pkt = filled prior got ∧ len = got.length
  | .sending true left => Sending pkg endpoint prior o k left
  | .sending false _ => True
  | .accepting => ClientLeaves prior o ∨ ResponseSent pkg endpoint prior o

theorem accounts_reading {k : Nat} {got : Bytes} {p : Place} (hprior : prior.length = bufLen)
    (hkept : Kept prior o) (hu : Undecided prior o k got)
    (h : step pkg endpoint (.reading (filled prior got) got.length) (o k) = .ok p) :
    Accounts pkg endpoint prior o (k + 1) p := by
  cases hrecv : (o k).recv with
  | closed =>
    simp only [step, hrecv] at h
    cases h
    exact Or.inl ⟨k, got, hu, hrecv⟩
  | failed =>
    simp only [step, hrecv] at h
    cases h
    exact ⟨got, hu.retry hrecv, rfl, rfl⟩
  | data chunk =>
    rw [step_data hprior hrecv (hkept _ _ _ hu hrecv).2] at h
    by_cases hnow : -1 ≤ (call prior got chunk).ret ∨ bufLen ≤ (got ++ chunk).length
    · rw [if_pos hnow] at h
      obtain ⟨served, text, hserved, htext, rfl⟩ := write_ok_iff.1 h
      by_cases hnil : text = []
      · rw [if_pos hnil]
        refine Or.inr ⟨k, got, chunk, served, text, hu, hrecv, hnow, hserved, htext, 0, ?_, ?_⟩
        · exact fun i hi => absurd hi (Nat.not_lt_zero i)
        · rw [hnil]
          exact Nat.zero_le _
      · rw [if_neg hnil]
        refine ⟨k, 0, got, chunk, served, text, hu, hrecv, hnow, hserved, htext, rfl, ?_, ?_⟩
        · exact fun i hi => absurd hi (Nat.not_lt_zero i)
        · exact Nat.zero_add _
    · rw [if_neg hnow] at h
      cases h
      obtain ⟨hmore, hroom⟩ := not_or.1 hnow
      have hret : (call prior got chunk).ret = -2 :=
        (ret_cases (filled prior (got ++ chunk)) got.length).resolve_right hmore
      exact ⟨_, hu.more hrecv hret (Nat.lt_of_not_le hroom), rfl, rfl⟩

theorem accounts_sending {k left : Nat} {p : Place} (hs : Sending pkg endpoint prior o k left)
    (h : step pkg endpoint (.sending true left) (o k) = .ok p) :
    Accounts pkg endpoint prior o (k + 1) p := by
  cases hsend : (o k).send with
  | none =>
    simp only [step, hsend] at h
    cases h
    exact trivial
  | some sent =>
    simp only [step, hsend] at h
    obtain ⟨k₀, n, got, chunk, served, text, hu, hrecv, hnow, hserved, htext, rfl, hok, hsum⟩ := hs
    have hok' : ∀ i < n + 1, (o (k₀ + 1 + i)).send ≠ none := by
      intro i hi
      rcases Nat.lt_succ_iff_lt_or_eq.1 hi with hlt | rfl
      · exact hok i hlt
      · rw [hsend]
        exact Option.some_ne_none sent
    have hsum' : sentBy o (k₀ + 1) (n + 1) = sentBy o (k₀ + 1) n + sent := by
      rw [sentBy_snoc, hsend, Option.getD_some]
    by_cases hall : left ≤ sent
    · rw [if_pos hall] at h
      cases h
      exact Or.inr ⟨k₀, got, chunk, served, text, hu, hrecv, hnow, hserved, htext, n + 1, hok',
        by omega⟩
    · rw [if_neg hall] at h
      cases h
      exact ⟨k₀, n + 1, got, chunk, served, text, hu, hrecv, hnow, hserved, htext, rfl, hok',
        by omega⟩

/-- Induction on the calls: each place the server is at accounts for the calls before it. -/
theorem accounts (hprior : prior.length = bufLen) (hkept : Kept prior o) {k : Nat} {p : Place}
    (h : after pkg endpoint prior o k = .ok p) : Accounts pkg endpoint prior o k p := by
  induction k generalizing p with
  | zero =>
    cases h
    exact ⟨[], .start, rfl, rfl⟩
  | succ k ih =>
    obtain ⟨q, hq, hstep⟩ := bind_eq_ok.1 h
    have hbefore := ih hq
    match q with
    | .reading pkt len =>
      obtain ⟨got, hu, rfl, rfl⟩ := hbefore
      exact accounts_reading hprior hkept hu hstep
    | .sending true left => exact accounts_sending hbefore hstep
    | .sending false left =>
      cases hstep
      exact trivial
    | .accepting =>
      cases hstep
      exact hbefore

end

/-- The server goes back to `accept` just where the client leaves before it has sent a request,
or the whole of the response is sent before a `send` fails. -/
theorem goesBack_iff (pkg : Package) (endpoint : Nat → Option Bytes → Except Fault Answer)
    (prior : Bytes) (o : Nat → Outcome) (hprior : prior.length = bufLen) (hkept : Kept prior o) :
    GoesBack pkg endpoint prior o ↔ ClientLeaves prior o ∨ ResponseSent pkg endpoint prior o := by
  constructor
  · intro ⟨k, h⟩
    exact accounts hprior hkept h
  · intro h
    cases h with
    | inl h =>
      obtain ⟨k, got, hu, hclosed⟩ := h
      refine ⟨k + 1, ?_⟩
      rw [after_succ (after_undecided hprior hkept hu)]
      simp only [step, hclosed]
      rfl
    | inr h =>
      obtain ⟨k, got, chunk, served, text, hu, hrecv, hnow, hserved, htext, hsends⟩ := h
      have hnext : after pkg endpoint prior o (k + 1) =
          .ok (if text = [] then .accepting else .sending true text.length) := by
        rw [after_succ (after_undecided hprior hkept hu),
          step_data hprior hrecv (hkept _ _ _ hu hrecv).2, if_pos hnow]
        exact write_ok_iff.2 ⟨served, text, hserved, htext, rfl⟩
      by_cases hnil : text = []
      · rw [if_pos hnil] at hnext
        exact ⟨k + 1, hnext⟩
      · rw [if_neg hnil] at hnext
        exact sends_back hsends (List.length_pos_iff.2 hnil) hnext

/-- A client that closes at once, on a buffer of zeros. -/
theorem closed_at_once : GoesBack anyPackage noEndpoint (List.replicate bufLen 0) fun _ =>
    { recv := .closed, send := none } :=
  (goesBack_iff anyPackage noEndpoint _ _ List.length_replicate
    (fun _ _ _ _ hdata => Recv.noConfusion hdata)).2 (Or.inl ⟨0, [], .start, rfl⟩)

/-- A client that resets the connection before it has sent a byte: every call fails, and the
server stays in the read loop. -/
theorem reset_not_left : ¬ ∀ (pkg : Package) (endpoint : Nat → Option Bytes → Except Fault Answer)
    (prior : Bytes) (o : Nat → Outcome), prior.length = bufLen → Kept prior o →
    (∃ n, ∀ k, n ≤ k → (o k).fails) → GoesBack pkg endpoint prior o := by
  intro h
  let o : Nat → Outcome := fun _ => { recv := .failed, send := none }
  obtain ⟨k, hk⟩ := h anyPackage noEndpoint (List.replicate bufLen 0) o
    List.length_replicate (fun _ _ _ _ hdata => Recv.noConfusion hdata) ⟨0, fun _ _ => ⟨rfl, rfl⟩⟩
  have hstays (n : Nat) : after anyPackage noEndpoint (List.replicate bufLen 0) o n =
      .ok (.reading (List.replicate bufLen 0) 0) := by
    induction n with
    | zero => rfl
    | succ n ih =>
      rw [after_succ ih]
      rfl
  cases Except.ok.inj ((hstays k).symm.trans hk)

end Yagips.Http.BrokenConnection

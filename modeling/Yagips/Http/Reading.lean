import Yagips.Http.Chunking

/-!
# The read loop by its calls of the parser

Each chunk is stored behind the bytes received before, and the parser is called on the whole
buffer. The loop is decided by the first call that does not ask for more, or that has filled
the buffer. An accepted request gets a NUL behind it, for which a full buffer has no room.
-/
namespace Yagips.Http.Reading

open Yagips.Lib
open Yagips.Lib.Scan
open Yagips.Http.Request
open Yagips.Http.HeadOnly
open Yagips.Http.Serve
open Yagips.Http.Chunking

/-- The buffer with `got` received over what it held before. -/
def filled (prior got : Bytes) : Bytes := got ++ prior.drop got.length

/-- The call of the parser on a chunk received behind `got`. -/
def call (prior got chunk : Bytes) : Parsed := phrParseRequest (filled prior (got ++ chunk)) got.length

/-- Every chunk has a byte, and no more than the room that was left. -/
def Offered : Nat → List Recv → Prop
  | _, [] => True
  | _, .closed :: _ => True
  | n, .failed :: more => Offered n more
  | n, .data chunk :: more => chunk ≠ [] ∧ n + chunk.length ≤ bufLen ∧ Offered (n + chunk.length) more

/-- The call on `chunk`, received behind `g`, decides: every call before it asked for more and left
room in the buffer. -/
inductive Decides (prior : Bytes) : Bytes → List Recv → Bytes → Bytes → Prop where
  | now {got chunk : Bytes} {more : List Recv}
      (h : -1 ≤ (call prior got chunk).ret ∨ bufLen ≤ (got ++ chunk).length) :
      Decides prior got (.data chunk :: more) got chunk
  | later {got chunk g c : Bytes} {more : List Recv} (hret : (call prior got chunk).ret = -2)
      (hroom : (got ++ chunk).length < bufLen) (h : Decides prior (got ++ chunk) more g c) :
      Decides prior got (.data chunk :: more) g c
  | retry {got g c : Bytes} {more : List Recv} (h : Decides prior got more g c) :
      Decides prior got (.failed :: more) g c

/-- What the loop leaves after the call that decides. -/
def decided (prior g c : Bytes) : Received :=
  if -1 ≤ (call prior g c).ret then
    .parsed (filled prior (g ++ c)) (g ++ c).length (call prior g c)
  else .writeRsp 413 (call prior g c)

/-! ## The loop -/

theorem ret_cases (buf : Bytes) (lastLen : Nat) :
    (phrParseRequest buf lastLen).ret = -2 ∨ -1 ≤ (phrParseRequest buf lastLen).ret := by
  unfold phrParseRequest
  split
  · exact Or.inr le_rfl
  · exact Or.inl rfl
  · split
    case h_1 => exact Or.inr (by dsimp only; omega)
    case h_2 => exact Or.inr le_rfl
    case h_3 => exact Or.inl rfl

theorem filled_length {prior got : Bytes} (h : got.length ≤ prior.length) :
    (filled prior got).length = prior.length := by
  rw [filled, List.length_append, List.length_drop]
  omega

theorem storeAt_filled {prior got chunk : Bytes} (h : (got ++ chunk).length ≤ prior.length) :
    storeAt (filled prior got) got.length chunk = .ok (filled prior (got ++ chunk)) := by
  rw [List.length_append] at h
  have hroom : chunk.length ≤ (prior.drop got.length).length := by
    rw [List.length_drop]
    omega
  rw [filled, storeAt_append hroom, List.drop_drop, filled, List.length_append]

section

variable {prior got chunk : Bytes} {more recvs : List Recv}

theorem readLoop_data (more : List Recv) (h : (got ++ chunk).length ≤ prior.length) :
    readLoop (filled prior got) got.length (.data chunk :: more) =
      if -1 ≤ (call prior got chunk).ret then
        .ok (.parsed (filled prior (got ++ chunk)) (got ++ chunk).length (call prior got chunk))
      else if bufLen ≤ (got ++ chunk).length then .ok (.writeRsp 413 (call prior got chunk))
      else readLoop (filled prior (got ++ chunk)) (got ++ chunk).length more := by
  have hnot : -1 ≤ (call prior got chunk).ret ∨ ¬ (call prior got chunk).ret < -2 := by
    rcases ret_cases (filled prior (got ++ chunk)) got.length with h | h
    · exact Or.inr (by rw [call, h]; decide)
    · exact Or.inl h
  rw [readLoop, storeAt_filled h]
  dsimp only
  change (if -1 ≤ (call prior got chunk).ret then _ else if (call prior got chunk).ret < -2 then _
    else _) = _
  rw [← List.length_append]
  rcases hnot with hret | hret
  · rw [if_pos hret, if_pos hret]
    rfl
  · rw [if_neg hret]
    rfl

/-- The loop ends with the call that decides, or there is none, and it waits or the client left. -/
theorem readLoop_cases (hprior : prior.length = bufLen) (hgot : got.length ≤ bufLen)
    (hoffered : Offered got.length recvs) :
    (∃ g c, Decides prior got recvs g c ∧ (g ++ c).length ≤ bufLen ∧
      readLoop (filled prior got) got.length recvs = .ok (decided prior g c)) ∨
    ((∀ g c, ¬ Decides prior got recvs g c) ∧
      (readLoop (filled prior got) got.length recvs = .ok .closed ∨
        ∃ pkt n, readLoop (filled prior got) got.length recvs = .ok (.waiting pkt n))) := by
  induction recvs generalizing got with
  | nil => exact Or.inr ⟨nofun, Or.inr ⟨_, _, rfl⟩⟩
  | cons r more ih =>
    cases r with
    | closed => exact Or.inr ⟨nofun, Or.inl rfl⟩
    | failed =>
      rcases ih hgot hoffered with ⟨g, c, hd, hlen, hloop⟩ | ⟨hnone, hloop⟩
      · exact Or.inl ⟨g, c, .retry hd, hlen, hloop⟩
      · refine Or.inr ⟨fun g c h => ?_, hloop⟩
        cases h with
        | retry h => exact hnone g c h
    | data chunk =>
      obtain ⟨-, hsize, hmore⟩ := hoffered
      rw [← List.length_append] at hsize hmore
      have hloop := readLoop_data more (hsize.trans hprior.ge)
      by_cases hdecides : -1 ≤ (call prior got chunk).ret ∨ bufLen ≤ (got ++ chunk).length
      · refine Or.inl ⟨got, chunk, .now hdecides, hsize, ?_⟩
        rw [hloop, decided]
        split
        · rfl
        case isFalse hret => rw [if_pos (hdecides.resolve_left hret)]
      · have hret : ¬ -1 ≤ (call prior got chunk).ret := fun h => hdecides (Or.inl h)
        have hfull : ¬ bufLen ≤ (got ++ chunk).length := fun h => hdecides (Or.inr h)
        have hmore2 : (call prior got chunk).ret = -2 := (ret_cases _ _).resolve_right hret
        rw [hloop, if_neg hret, if_neg hfull]
        rcases ih hsize hmore with ⟨g, c, hd, hlen, hnext⟩ | ⟨hnone, hnext⟩
        · exact Or.inl ⟨g, c, .later hmore2 (Nat.not_le.mp hfull) hd, hlen, hnext⟩
        · refine Or.inr ⟨fun g c h => ?_, hnext⟩
          cases h with
          | now h => exact hdecides h
          | later _ _ h => exact hnone g c h

end

/-- Only one call decides. -/
theorem Decides.unique {prior got g c g' c' : Bytes} {recvs : List Recv}
    (h : Decides prior got recvs g c) (h' : Decides prior got recvs g' c') : g = g' ∧ c = c' := by
  have hclash : ∀ {got chunk : Bytes}, (-1 ≤ (call prior got chunk).ret ∨ bufLen ≤ (got ++ chunk).length) →
      (call prior got chunk).ret = -2 → ¬ (got ++ chunk).length < bufLen := by
    intro got chunk hnow hret hroom
    rw [hret] at hnow
    omega
  induction h with
  | now hnow =>
    cases h' with
    | now => exact ⟨rfl, rfl⟩
    | later hret hroom _ => exact absurd hroom (hclash hnow hret)
  | later hret hroom _ ih =>
    cases h' with
    | now hnow => exact absurd hroom (hclash hnow hret)
    | later _ _ h' => exact ih h'
  | retry _ ih =>
    cases h' with
    | retry h' => exact ih h'

theorem serve_decided {prior g c : Bytes} {recvs : List Recv} (hprior : prior.length = bufLen)
    (hoffered : Offered 0 recvs) (hd : Decides prior [] recvs g c) :
    serve prior recvs = respond (decided prior g c) ∧ (g ++ c).length ≤ bufLen := by
  have hnil : ([] : Bytes).length ≤ bufLen := Nat.zero_le _
  rcases readLoop_cases hprior hnil hoffered with
    ⟨g', c', hd', hlen, hloop⟩ | ⟨hnone, -⟩
  · obtain ⟨rfl, rfl⟩ := hd.unique hd'
    refine ⟨?_, hlen⟩
    change readLoop prior 0 recvs = _ at hloop
    rw [serve, hloop]
    rfl
  · exact absurd hd (hnone g c)

/-- Where no call decides, the server waits or the client left. -/
theorem serve_undecided {prior : Bytes} {recvs : List Recv} (hprior : prior.length = bufLen)
    (hoffered : Offered 0 recvs) (hnone : ∀ g c, ¬ Decides prior [] recvs g c) :
    serve prior recvs = .ok .closed ∨ serve prior recvs = .ok .waiting := by
  have hnil : ([] : Bytes).length ≤ bufLen := Nat.zero_le _
  rcases readLoop_cases hprior hnil hoffered with
    ⟨g, c, hd, -⟩ | ⟨-, hloop | ⟨pkt, n, hloop⟩⟩
  · exact absurd hd (hnone g c)
  · change readLoop prior 0 recvs = _ at hloop
    rw [serve, hloop]
    exact Or.inl rfl
  · change readLoop prior 0 recvs = _ at hloop
    rw [serve, hloop]
    exact Or.inr rfl

/-! ## The terminator -/

/-- An accepted request has a method and a path. -/
theorem accepted_texts {buf : Bytes} {lastLen : Nat} (h : 0 ≤ (phrParseRequest buf lastLen).ret) :
    ∃ meth path, (phrParseRequest buf lastLen).method = some meth ∧
      (phrParseRequest buf lastLen).path = some path := by
  unfold phrParseRequest at h ⊢
  split at h
  · exact absurd h (by decide)
  · exact absurd h (by decide)
  · split at h
    case h_1 head rest hdone => exact ⟨head.method, head.path, rfl, rfl⟩
    case h_2 => exact absurd h (show ¬ 0 ≤ (-1 : Int) by decide)
    case h_3 => exact absurd h (show ¬ 0 ≤ (-2 : Int) by decide)

/-- What follows the call that decides writes within the buffer, unless an accepted request has
filled it. -/
theorem respond_decided_iff {prior g c : Bytes} (hprior : prior.length = bufLen)
    (hlen : (g ++ c).length ≤ bufLen) : (∃ r, respond (decided prior g c) = .ok r) ↔
      ¬ ((g ++ c).length = bufLen ∧ 0 ≤ (call prior g c).ret) := by
  unfold decided
  by_cases hret : -1 ≤ (call prior g c).ret
  · rw [if_pos hret, respond]
    by_cases hneg : (call prior g c).ret < 0
    · rw [if_pos hneg]
      exact iff_of_true ⟨_, rfl⟩ fun h => absurd h.2 (by omega)
    · rw [if_neg hneg]
      obtain ⟨meth, path, hm, hp⟩ := accepted_texts (Int.not_lt.mp hneg)
      change (call prior g c).method = _ at hm
      change (call prior g c).path = _ at hp
      have hlength := filled_length (hlen.trans hprior.ge)
      rw [hm, hp]
      by_cases hfull : (g ++ c).length = bufLen
      · have hstore : storeAt (filled prior (g ++ c)) (g ++ c).length [0] =
            .error (.slice (g ++ c).length 1) := by
          refine if_neg ?_
          rw [hlength, hprior, hfull, List.length_singleton]
          omega
        rw [hstore]
        refine iff_of_false ?_ fun h => h ⟨hfull, Int.not_lt.mp hneg⟩
        rintro ⟨r, h⟩
        cases h
      · have hstore : ∃ pkt, storeAt (filled prior (g ++ c)) (g ++ c).length [0] = .ok pkt := by
          rw [storeAt, if_pos]
          · exact ⟨_, rfl⟩
          · rw [hlength, hprior, List.length_singleton]
            omega
        obtain ⟨pkt, hpkt⟩ := hstore
        rw [hpkt]
        exact iff_of_true ⟨_, rfl⟩ fun h => hfull h.1
  · rw [if_neg hret]
    exact iff_of_true ⟨_, rfl⟩ fun h => hret (by omega)

/-- The call that decides accepts a request with the byte that fills the buffer. -/
def FillsAccepted (prior : Bytes) (recvs : List Recv) : Prop :=
  ∃ g c, Decides prior [] recvs g c ∧ (g ++ c).length = bufLen ∧ 0 ≤ (call prior g c).ret

/-- Whatever chunks come, all that is written to the buffer stays in it unless an accepted request
ends exactly where the buffer does. -/
theorem buffer_kept_iff (prior : Bytes) (recvs : List Recv) (hprior : prior.length = bufLen)
    (hoffered : Offered 0 recvs) :
    (∃ r, serve prior recvs = .ok r) ↔ ¬ FillsAccepted prior recvs := by
  by_cases hd : ∃ g c, Decides prior [] recvs g c
  · obtain ⟨g, c, hd⟩ := hd
    obtain ⟨hserve, hlen⟩ := serve_decided hprior hoffered hd
    rw [hserve, respond_decided_iff hprior hlen, not_iff_not]
    constructor
    · intro ⟨hfull, hret⟩
      exact ⟨g, c, hd, hfull, hret⟩
    · intro ⟨g', c', hd', hfull, hret⟩
      obtain ⟨rfl, rfl⟩ := hd.unique hd'
      exact ⟨hfull, hret⟩
  · have hnone : ∀ g c, ¬ Decides prior [] recvs g c := fun g c h => hd ⟨g, c, h⟩
    refine iff_of_true ?_ fun ⟨g, c, h, _⟩ => hnone g c h
    rcases serve_undecided hprior hoffered hnone with h | h
    · exact ⟨_, h⟩
    · exact ⟨_, h⟩

/-! ## A request as long as the buffer -/

def shortGet : Bytes := ascii "GET / HTTP/1.1\r\n\r\n"

/-- A request with a body up to the end of the buffer. -/
def longGet : Bytes := shortGet ++ List.replicate (bufLen - 18) 0x78

theorem longGet_length : longGet.length = bufLen := by
  have hshort : shortGet.length = 18 := by decide
  have hroom : 18 ≤ bufLen := by decide
  rw [longGet, List.length_append, List.length_replicate, hshort]
  omega

theorem longGet_accepted : (phrParseRequest longGet 0).ret = 18 := by
  have hshort : (phrParseRequest shortGet 0).ret = (18 : Nat) := by decide +kernel
  have hsame : longGet.take 18 = shortGet.take 18 := by
    rw [longGet, List.take_append_of_le_length (by decide)]
  rw [phrParseRequest_head hshort hsame, hshort]
  rfl

theorem longGet_offered : Offered 0 [.data longGet] := by
  refine ⟨fun h => ?_, ?_, trivial⟩
  · have hlen := longGet_length
    rw [h] at hlen
    exact absurd hlen (by decide)
  · rw [Nat.zero_add, longGet_length]

theorem longGet_decides : Decides zeroed [] [.data longGet] [] longGet ∧
    0 ≤ (call zeroed [] longGet).ret := by
  have hbuf : filled zeroed ([] ++ longGet) = longGet := by
    rw [List.nil_append, filled, List.drop_of_length_le, List.append_nil]
    rw [zeroed_length, longGet_length]
  have hret : (call zeroed [] longGet).ret = 18 := by
    rw [call, hbuf]
    exact longGet_accepted
  refine ⟨.now (Or.inl ?_), ?_⟩
  · rw [hret]
    decide
  · rw [hret]
    decide

/-- A request that comes at once and is as long as the buffer has its NUL written behind it. -/
theorem longGet_overruns : Offered 0 [.data longGet] ∧ ¬ ∃ r, serve zeroed [.data longGet] = .ok r := by
  refine ⟨longGet_offered, ?_⟩
  obtain ⟨hd, hret⟩ := longGet_decides
  obtain ⟨hserve, hlen⟩ := serve_decided zeroed_length longGet_offered hd
  rw [hserve, respond_decided_iff zeroed_length hlen]
  intro h
  exact h ⟨longGet_length, hret⟩

/-- A short request in one chunk leaves the buffer alone. -/
theorem shortGet_kept : ∃ r, serve zeroed [.data shortGet] = .ok r := by
  refine (buffer_kept_iff zeroed [.data shortGet] zeroed_length ⟨by decide, by decide, trivial⟩).mpr ?_
  intro ⟨g, c, hd, hfull, _⟩
  cases hd with
  | now => exact absurd hfull (by decide)
  | later _ _ h => cases h

end Yagips.Http.Reading

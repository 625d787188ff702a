import Yagips.Http.Request

/-!
# The request parser looks at the head alone

Where `phr_parse_request` accepts a buffer, the bytes behind the length it returns do not
matter, and a NUL anywhere before that length makes it refuse. A NUL ends no part of a
request but a gap, and what follows a gap refuses it.
-/
namespace Yagips.Http.HeadOnly

open Yagips.Lib
open Yagips.Lib.Scan
open Yagips.Http.Request

/-! ## Line breaks -/

section

variable {α : Type} {f : Nat → α} {q : Scan α}

theorem lineEndOr_nul (x : Bytes) : lineEndOr f q (0 :: x) = q (0 :: x) := by
  simp [lineEndOr]

theorem lineEndOr_lf (t : Bytes) : lineEndOr f q (0x0a :: t) = .done (f 1) t := by
  simp [lineEndOr]

theorem lineEndOr_other {b : UInt8} (hcr : b ≠ 0x0d) (hlf : b ≠ 0x0a) (t : Bytes) :
    lineEndOr f q (b :: t) = q (b :: t) := by
  simp [lineEndOr, hcr, hlf]

/-- A success took a line break, or is one of `q`. -/
theorem lineEndOr_done {s rest : Bytes} {a : α} (h : lineEndOr f q s = .done a rest) :
    (s = 0x0d :: 0x0a :: rest ∧ a = f 2) ∨ (s = 0x0a :: rest ∧ a = f 1) ∨
      ∃ b t, s = b :: t ∧ b ≠ 0x0d ∧ b ≠ 0x0a ∧ q s = .done a rest := by
  cases s with
  | nil => cases h
  | cons b t =>
    rw [lineEndOr] at h
    by_cases hcr : b = 0x0d
    · rw [if_pos hcr] at h
      obtain ⟨u, hlf, rfl⟩ := Scanned.map_eq_done h
      rw [hcr, expect_done hlf]
      exact Or.inl ⟨rfl, rfl⟩
    · rw [if_neg hcr] at h
      by_cases hlf : b = 0x0a
      · rw [if_pos hlf] at h
        cases h
        rw [hlf]
        exact Or.inr (Or.inl ⟨rfl, rfl⟩)
      · rw [if_neg hlf] at h
        exact Or.inr (Or.inr ⟨b, t, rfl, hcr, hlf, h⟩)

theorem lineEndOr_reads_break {soft : Bool} {s rest : Bytes} {a : α}
    (hz : ∀ x, Stopped soft 0 (lineEndOr f q (0 :: x)) x)
    (h : (s = 0x0d :: 0x0a :: rest ∧ a = f 2) ∨ (s = 0x0a :: rest ∧ a = f 1)) :
    ∃ m, rest = s.drop m ∧ Reads soft 0 (lineEndOr f q) s a m m := by
  rcases h with ⟨rfl, rfl⟩ | ⟨rfl, rfl⟩
  · have hlf : Reads soft 0 (expect 0x0a) (0x0a :: rest) () 1 1 :=
      Reads.last (expect_self _) (expect_stops (by decide) soft) rest
    have hcrlf := hlf.cons (p := lineEndOr f q) (b := 0x0d) (f := fun _ => f 2)
      (fun t' => by simp [lineEndOr]) hz
    exact ⟨2, rfl, hcrlf⟩
  · exact ⟨1, rfl, Reads.last lineEndOr_lf hz rest⟩

/-- With a `q` that refuses a NUL, a line break or `q` reads no further than it takes. -/
theorem lineEndOr_streams (hq : Streams false 0 1 0 q) (hz : ∀ x, q (0 :: x) = .bad) :
    Streams false 0 1 0 (lineEndOr f q) := by
  intro s a rest h
  have hstops : ∀ x, Stopped false 0 (lineEndOr f q (0 :: x)) x := by
    intro x
    rw [lineEndOr_nul]
    exact Or.inl (hz x)
  rcases or_assoc.mpr (lineEndOr_done h) with hbreak | ⟨b, t, rfl, hcr, hlf, hdone⟩
  · obtain ⟨m, hrest, hr⟩ := lineEndOr_reads_break hstops hbreak
    exact ⟨m, m, hrest, hr.least, le_rfl, hr⟩
  · obtain ⟨m, k, hrest, hleast, hahead, hr⟩ := hq _ _ _ hdone
    exact ⟨m, k, hrest, hleast, hahead, hr.branch (lineEndOr_other hcr hlf) hstops⟩

end

theorem lineEnd_nul (x : Bytes) : lineEnd (0 :: x) = .bad := lineEndOr_nul x

theorem lineEnd_streams : Streams false 0 1 0 lineEnd :=
  lineEndOr_streams Streams.fail fun _ => rfl

theorem skipEmptyLine_streams : Streams true 0 1 1 skipEmptyLine := by
  intro s a rest h
  have hstops : ∀ x, Stopped true 0 (skipEmptyLine (0 :: x)) x := fun x =>
    Or.inr ⟨rfl, 0, lineEndOr_nul x⟩
  rcases or_assoc.mpr (lineEndOr_done h) with hbreak | ⟨b, t, rfl, hcr, hlf, hdone⟩
  · obtain ⟨m, hrest, hr⟩ := lineEndOr_reads_break hstops hbreak
    exact ⟨m, m, hrest, hr.least, by omega, hr⟩
  · cases hdone
    exact ⟨0, 1, rfl, le_rfl, le_rfl, Reads.peek (lineEndOr_other hcr hlf) hstops t⟩

/-! ## Tokens and gaps -/

theorem parseToken_nul {c : UInt8} (hc : c ≠ 0) (x : Bytes) : parseToken c (0 :: x) = .bad := by
  rw [parseToken, if_neg hc.symm]
  rfl

theorem parseToken_streams {c : UInt8} (hc : c ≠ 0) : Streams false 0 1 1 (parseToken c) := by
  have hstops : ∀ x, Stopped false 0 (parseToken c (0 :: x)) x := fun x =>
    Or.inl (parseToken_nul hc x)
  refine Streams.loop rfl hstops fun b => ?_
  by_cases hb : b = c
  · refine Or.inr fun t a rest h => ?_
    have hend : ∀ t, parseToken c (b :: t) = .done [] (b :: t) := fun t => if_pos hb
    rw [hend] at h
    cases h
    exact ⟨0, 1, rfl, le_rfl, Reads.peek hend hstops t⟩
  · by_cases htoken : tokenCharMap b = true
    · exact Or.inl ⟨(b :: ·), fun t => by rw [parseToken, if_neg hb, if_pos htoken]⟩
    · refine Or.inr fun t a rest h => ?_
      rw [parseToken, if_neg hb, if_neg htoken] at h
      cases h

/-- A token and the delimiter it ended at. -/
theorem parseToken_done {c : UInt8} {s rest token : Bytes} (h : parseToken c s = .done token rest) :
    s = token ++ rest ∧ ∃ t, rest = c :: t := by
  induction s generalizing token with
  | nil => cases h
  | cons b s ih =>
    rw [parseToken] at h
    by_cases hb : b = c
    · rw [if_pos hb] at h
      cases h
      exact ⟨rfl, s, by rw [hb]⟩
    · rw [if_neg hb] at h
      split at h
      · obtain ⟨token', hs, rfl⟩ := Scanned.map_eq_done h
        obtain ⟨htext, htail⟩ := ih hs
        exact ⟨congrArg (b :: ·) htext, htail⟩
      · cases h

theorem advanceToken_nul (x : Bytes) : advanceToken (0 :: x) = .bad := rfl

theorem advanceToken_streams : Streams false 0 1 1 advanceToken := by
  have hstops : ∀ x, Stopped false 0 (advanceToken (0 :: x)) x := fun x =>
    Or.inl (advanceToken_nul x)
  refine Streams.loop rfl hstops fun b => ?_
  by_cases hb : b = 0x20
  · refine Or.inr fun t a rest h => ?_
    have hend : ∀ t, advanceToken (b :: t) = .done [] (b :: t) := fun t => if_pos hb
    rw [hend] at h
    cases h
    exact ⟨0, 1, rfl, le_rfl, Reads.peek hend hstops t⟩
  · by_cases hcontrol : (b < 0x20 || b = 0x7f) = true
    · refine Or.inr fun t a rest h => ?_
      rw [advanceToken, if_neg hb, if_pos hcontrol] at h
      cases h
    · exact Or.inl ⟨(b :: ·), fun t => by rw [advanceToken, if_neg hb, if_neg hcontrol]⟩

theorem advanceToken_done {s rest token : Bytes} (h : advanceToken s = .done token rest) :
    s = token ++ rest ∧ ∃ t, rest = 0x20 :: t := by
  induction s generalizing token with
  | nil => cases h
  | cons b s ih =>
    rw [advanceToken] at h
    by_cases hb : b = 0x20
    · rw [if_pos hb] at h
      cases h
      exact ⟨rfl, s, by rw [hb]⟩
    · rw [if_neg hb] at h
      split at h
      · cases h
      · obtain ⟨token', hs, rfl⟩ := Scanned.map_eq_done h
        obtain ⟨htext, htail⟩ := ih hs
        exact ⟨congrArg (b :: ·) htext, htail⟩

section

variable {skipped : UInt8 → Bool}

/-- A gap may end before a NUL. -/
theorem skipWhile_streams (h0 : skipped 0 = false) : Streams true 0 1 1 (skipWhile skipped) := by
  have hend : ∀ b, skipped b = false → ∀ t, skipWhile skipped (b :: t) = .done 0 (b :: t) := by
    intro b hb t
    simp [skipWhile, hb]
  have hstops : ∀ x, Stopped true 0 (skipWhile skipped (0 :: x)) x := fun x =>
    Or.inr ⟨rfl, 0, hend 0 h0 x⟩
  refine Streams.loop rfl hstops fun b => ?_
  cases hb : skipped b with
  | false =>
    refine Or.inr fun t a rest h => ?_
    rw [hend b hb] at h
    cases h
    exact ⟨0, 1, rfl, le_rfl, Reads.peek (hend b hb) hstops t⟩
  | true => exact Or.inl ⟨(· + 1), fun t => by rw [skipWhile, if_pos hb]⟩

theorem skipWhile_done {s rest : Bytes} {n : Nat} (h : skipWhile skipped s = .done n rest) :
    rest = s.drop n := by
  induction s generalizing n with
  | nil => cases h
  | cons b s ih =>
    rw [skipWhile] at h
    split at h
    · obtain ⟨n', hs, rfl⟩ := Scanned.map_eq_done h
      exact ih hs
    · cases h
      rfl

end

theorem skipSpaces_streams : Streams true 0 1 1 skipSpaces := skipWhile_streams (by decide)

/-! ## The version -/

/-- The version reads its eight bytes and wants a ninth. -/
theorem parseHttpVersion_streams : Streams true 0 9 1 parseHttpVersion := by
  intro s a rest h
  have hguard : ∀ s', parseHttpVersion s' = if s'.length < 8 + 1 then .more else versionDigits s' :=
    fun _ => rfl
  rw [hguard] at h
  split at h
  · cases h
  · obtain ⟨u, mid, hname, hdigit⟩ := bind_eq_done h
    have hs := literal_done hname
    cases mid with
    | nil => cases hdigit
    | cons b t =>
      rw [parseInt] at hdigit
      split at hdigit
      · next hb =>
        cases hdigit
        subst hs
        have hfirst : Reads false 0 (literal versionPrefix) (versionPrefix ++ b :: rest) () 7 7 :=
          literal_reads (by decide) (b :: rest)
        have hlast : Reads false 0 parseInt (b :: rest) (b.toNat - 0x30) 1 1 :=
          Reads.last (fun t => by rw [parseInt, if_pos hb]) (fun x => Or.inl rfl) rest
        have hr := hfirst.bind (q := fun _ => parseInt) hlast (by simp)
        exact ⟨8, 9, rfl, le_rfl, le_rfl, Reads.wants hr (by omega) hguard⟩
      · cases hdigit

theorem parseHttpVersion_nul {x : Bytes} (hx : 8 ≤ x.length) : parseHttpVersion (0 :: x) = .bad := by
  have hlen : ¬ (0 :: x).length < 9 := by
    rw [List.length_cons]
    omega
  rw [parseHttpVersion, if_neg hlen]
  rfl

/-! ## Headers -/

theorem getTokenToEol_nul (x : Bytes) : getTokenToEol (0 :: x) = .bad := rfl

theorem getTokenToEol_streams : Streams false 0 1 0 getTokenToEol := by
  have hstops : ∀ x, Stopped false 0 (getTokenToEol (0 :: x)) x := fun x =>
    Or.inl (getTokenToEol_nul x)
  refine Streams.loop rfl hstops fun b => ?_
  cases hb : isControl b with
  | true =>
    refine Or.inr fun t a rest h => ?_
    have hend : ∀ t, getTokenToEol (b :: t) = (lineEnd >>= fun _ => Scan.pure []) (b :: t) := by
      intro t
      rw [getTokenToEol, if_pos hb, map_eq_bind]
    rw [hend] at h
    obtain ⟨m, k, hrest, -, hahead, hr⟩ := lineEnd_streams.map (fun _ => ([] : Bytes)) _ _ _ h
    exact ⟨m, k, hrest, hahead, hr.branch hend hstops⟩
  | false =>
    refine Or.inl ⟨(b :: ·), fun t => ?_⟩
    simp [getTokenToEol, hb]

theorem parseHeaderName_streams : Streams true 0 1 1 parseHeaderName := by
  have hname := parseToken_streams (c := 0x3a) (by decide)
  have hcolon := expect_streams (z := 0) (c := 0x3a) (by decide)
  have hblanks : Streams true 0 1 1 (skipWhile isBlank) := skipWhile_streams (by decide)
  have hrest : ∀ name : Bytes, Streams true 0 1 1 (if name = [] then fail else do
      expect 0x3a
      let _ ← skipWhile isBlank
      Scan.pure (some name)) := by
    intro name
    split
    · exact Streams.fail
    · exact (hcolon.bind (fun _ => hblanks.map _) (fun h => by cases h)).weaken (by omega) le_rfl
  exact hname.bind hrest fun h => by cases h

theorem parseHeaderName_nul (x : Bytes) : parseHeaderName (0 :: x) = .bad :=
  bind_bad (parseToken_nul (by decide) x) _

theorem headerName_nul (first : Bool) (x : Bytes) : headerName first (0 :: x) = .bad := by
  have hnamed : headerName first (0 :: x) = parseHeaderName (0 :: x) := by
    simp [headerName, show isBlank 0 = false from rfl]
  rw [hnamed]
  exact parseHeaderName_nul x

/-- A line with a blank in front has no name, and so stops before it. -/
theorem headerName_streams (first : Bool) : Streams true 0 1 1 (headerName first) := by
  intro s a rest h
  have hstops : ∀ x, Stopped true 0 (headerName first (0 :: x)) x := fun x =>
    Or.inl (headerName_nul first x)
  cases s with
  | nil => cases h
  | cons b t =>
    cases hb : !first && isBlank b with
    | true =>
      have hend : ∀ t, headerName first (b :: t) = .done none (b :: t) := fun t => if_pos hb
      rw [hend] at h
      cases h
      exact ⟨0, 1, rfl, le_rfl, le_rfl, Reads.peek hend hstops t⟩
    | false =>
      have hnamed : ∀ t, headerName first (b :: t) = parseHeaderName (b :: t) := by
        intro t
        rw [headerName, hb]
        rfl
      rw [hnamed] at h
      obtain ⟨m, k, hrest, hleast, hahead, hr⟩ := parseHeaderName_streams _ _ _ h
      exact ⟨m, k, hrest, hleast, hahead, hr.branch hnamed hstops⟩

theorem parseHeader_streams (first : Bool) : Streams false 0 1 0 (parseHeader first) :=
  ((headerName_streams first).bind (fun _ => getTokenToEol_streams.map _)
    (fun _ _ x _ => bind_bad (getTokenToEol_nul x) _)).weaken (by omega) le_rfl

theorem parseHeader_nul (first : Bool) (x : Bytes) : parseHeader first (0 :: x) = .bad :=
  bind_bad (headerName_nul first x) _

theorem parseHeaders_streams (room : Nat) (first : Bool) :
    Streams false 0 1 0 (parseHeaders room first) := by
  induction room generalizing first with
  | zero => exact lineEndOr_streams Streams.fail fun _ => rfl
  | succ room ih =>
    refine lineEndOr_streams ?_ fun x => bind_bad (parseHeader_nul first x) _
    exact ((parseHeader_streams first).bind (fun header => (ih false).map _)
      (fun h => by cases h)).weaken (by omega) le_rfl

/-! ## The request -/

theorem methodPart_streams : Streams false 0 1 1 methodPart := by
  have htoken := parseToken_streams (c := 0x20) (by decide)
  have hempty := skipEmptyLine_streams
  exact (hempty.bind (fun blank => htoken.map (Text.mk blank))
    (fun _ _ x _ => bind_bad (parseToken_nul (by decide) x) _)).weaken (by omega) le_rfl

theorem pathPart_streams (method : Text) : Streams false 0 1 1 (pathPart method) :=
  (skipSpaces_streams.bind (fun gap => advanceToken_streams.map (Text.mk _))
    (fun _ _ x _ => bind_bad (advanceToken_nul x) _)).weaken (by omega) le_rfl

theorem versionPart_streams (method path : Text) : Streams true 0 9 1 (versionPart method path) := by
  have hrest : ∀ _ : Nat, Streams true 0 9 1
      (if method.bytes = [] ∨ path.bytes = [] then fail else parseHttpVersion) := by
    intro _
    split
    · exact Streams.fail
    · exact parseHttpVersion_streams
  refine skipSpaces_streams.bind hrest ?_
  intro _ _ x hx
  split
  · rfl
  · exact parseHttpVersion_nul (by omega)

/-- An accepted request reads its head and nothing behind it, and no NUL before that end. -/
theorem parseRequest_streams : Streams false 0 1 0 parseRequest := by
  have hheaders (method path : Text) (minorVersion : Nat) := (parseHeaders_streams 128 true).map
    fun headers => ({ method, path, minorVersion, headers } : Head)
  have hline (method path : Text) (minorVersion : Nat) := lineEnd_streams.bind
    (fun _ => hheaders method path minorVersion) (fun h => by cases h)
  have hversion (method path : Text) := (versionPart_streams method path).bind
    (fun minorVersion => hline method path minorVersion)
    (fun _ _ x _ => bind_bad (lineEnd_nul x) _)
  have hpath (method : Text) := (pathPart_streams method).bind
    (fun path => hversion method path) (fun h => by cases h)
  exact (methodPart_streams.bind hpath (fun h => by cases h)).weaken (by omega) le_rfl

theorem skipEmptyLine_done {s rest : Bytes} {n : Nat} (h : skipEmptyLine s = .done n rest) :
    rest = s.drop n := by
  rcases lineEndOr_done h with ⟨rfl, rfl⟩ | ⟨rfl, rfl⟩ | ⟨b, t, rfl, -, -, hdone⟩
  · rfl
  · rfl
  · cases hdone
    rfl

/-- The method is at its offset, and the space the token ended at stands behind it. -/
theorem methodPart_done {s rest : Bytes} {method : Text} (h : methodPart s = .done method rest) :
    s.drop method.offset = method.bytes ++ rest ∧ ∃ t, rest = 0x20 :: t := by
  obtain ⟨blank, mid, hblank, hnext⟩ := bind_eq_done h
  obtain ⟨token, mid', htoken, hlast⟩ := bind_eq_done hnext
  cases hlast
  obtain ⟨htext, hspace⟩ := parseToken_done htoken
  exact ⟨by rw [← skipEmptyLine_done hblank, htext], hspace⟩

theorem pathPart_done {s rest mid : Bytes} {method path : Text}
    (hs : s.drop method.offset = method.bytes ++ mid) (h : pathPart method mid = .done path rest) :
    s.drop path.offset = path.bytes ++ rest ∧ ∃ t, rest = 0x20 :: t := by
  obtain ⟨gap, mid', hgap, hnext⟩ := bind_eq_done h
  obtain ⟨token, mid'', htoken, hlast⟩ := bind_eq_done hnext
  cases hlast
  obtain ⟨htext, hspace⟩ := advanceToken_done htoken
  refine ⟨?_, hspace⟩
  have hgap' : mid' = mid.drop gap := skipWhile_done hgap
  show s.drop (method.offset + method.bytes.length + gap) = token ++ rest
  rw [← List.drop_drop, ← List.drop_drop, hs, List.drop_left, ← hgap', htext]

/-- The method and the path stand at their offsets, each with a space behind it. -/
theorem parseRequest_done {s rest : Bytes} {head : Head} (h : parseRequest s = .done head rest) :
    (∃ x, s.drop head.method.offset = head.method.bytes ++ 0x20 :: x) ∧
      ∃ x, s.drop head.path.offset = head.path.bytes ++ 0x20 :: x := by
  obtain ⟨method, mid, hmethod, h⟩ := bind_eq_done h
  obtain ⟨path, mid', hpath, h⟩ := bind_eq_done h
  obtain ⟨minorVersion, _, -, h⟩ := bind_eq_done h
  obtain ⟨_, _, -, h⟩ := bind_eq_done h
  obtain ⟨headers, _, -, h⟩ := bind_eq_done h
  cases h
  obtain ⟨hmethodText, x, rfl⟩ := methodPart_done hmethod
  obtain ⟨hpathText, y, rfl⟩ := pathPart_done hmethodText hpath
  exact ⟨⟨x, hmethodText⟩, y, hpathText⟩

/-! ## What is returned -/

theorem phrParseRequest_first (buf : Bytes) :
    phrParseRequest buf 0 = match parseRequest buf with
      | .done head rest =>
        { ret := (buf.length - rest.length : Nat)
          method := some head.method
          path := some head.path
          minorVersion := head.minorVersion
          headers := head.headers }
      | .bad => stoppedAt buf (-1)
      | .more => stoppedAt buf (-2) := rfl

/-- An accepted buffer: what was returned is the length of the head. -/
theorem accepted {buf : Bytes} {n : Nat} (h : (phrParseRequest buf 0).ret = n) :
    ∃ head, Reads false 0 parseRequest buf head n n := by
  rw [phrParseRequest_first] at h
  cases hp : parseRequest buf with
  | done head rest =>
    rw [hp] at h
    obtain ⟨m, k, hrest, -, hahead, hr⟩ := parseRequest_streams _ _ _ hp
    have hmk : m = k := Nat.le_antisymm hr.taken hahead
    subst hmk
    have hwithin := hr.within
    have hret : buf.length - rest.length = n := by
      simpa using h
    rw [hrest, List.length_drop] at hret
    have hm : m = n := by omega
    exact ⟨head, hm ▸ hr⟩
  | bad =>
    rw [hp] at h
    simp only [stoppedAt] at h
    omega
  | more =>
    rw [hp] at h
    simp only [stoppedAt] at h
    omega

/-- Two buffers with one head are the same request. -/
theorem phrParseRequest_head {buf buf' : Bytes} {n : Nat} (h : (phrParseRequest buf 0).ret = n)
    (hsame : buf'.take n = buf.take n) : phrParseRequest buf' 0 = phrParseRequest buf 0 := by
  obtain ⟨head, hr⟩ := accepted h
  have hn : n ≤ buf.length := hr.within
  have hn' : n ≤ buf'.length := by
    have hlen := congrArg List.length hsame
    rw [List.length_take, List.length_take] at hlen
    omega
  have hlen : buf'.length - (buf'.drop n).length = buf.length - (buf.drop n).length := by
    rw [List.length_drop, List.length_drop]
    omega
  rw [phrParseRequest_first, phrParseRequest_first, hr.agrees buf' hsame, hr.agrees buf rfl]
  simp only [hlen]

/-- A NUL inside the head is refused. -/
theorem phrParseRequest_nul {buf : Bytes} {n i : Nat} (h : (phrParseRequest buf 0).ret = n)
    (hi : i < n) {x : Bytes} (hx : n ≤ i + 1 + x.length) :
    (phrParseRequest (buf.take i ++ 0 :: x) 0).ret = -1 := by
  obtain ⟨head, hr⟩ := accepted h
  rcases hr.stops i hi x hx with hbad | ⟨hsoft, -⟩
  · rw [phrParseRequest_first, hbad]
    rfl
  · cases hsoft

/-- The method and path of an accepted buffer. -/
theorem phrParseRequest_texts {buf : Bytes} {n : Nat} (h : (phrParseRequest buf 0).ret = n) :
    ∃ method path x y, (phrParseRequest buf 0).method = some method ∧
      (phrParseRequest buf 0).path = some path ∧
      buf.drop method.offset = method.bytes ++ 0x20 :: x ∧
      buf.drop path.offset = path.bytes ++ 0x20 :: y := by
  obtain ⟨head, hr⟩ := accepted h
  have hdone := hr.agrees buf rfl
  obtain ⟨⟨x, hx⟩, y, hy⟩ := parseRequest_done hdone
  rw [phrParseRequest_first, hdone]
  exact ⟨head.method, head.path, x, y, rfl, rfl, hx, hy⟩

end Yagips.Http.HeadOnly

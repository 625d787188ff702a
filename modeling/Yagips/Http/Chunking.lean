import Yagips.Http.HeadOnly
import Yagips.Http.Serve

/-!
# When the pieces of a request do not matter

A request may come in pieces, into a buffer that still holds what earlier connections left.
The server takes it for the same request exactly when the first piece has all of the head
and, where the body goes to a handler, all of the body's string too.
-/
namespace Yagips.Http.Chunking

open Yagips.Lib
open Yagips.Http.Request
open Yagips.Http.HeadOnly
open Yagips.Http.Serve

/-! ## Selection by the texts -/

/-- A text stands in the buffer at its offset, with a space behind it. -/
def Stands (pkt : Bytes) (t : Text) : Prop := ∃ x, pkt.drop t.offset = t.bytes ++ 0x20 :: x

/-- A text that a method or path is compared with: no NUL, and a space only at the end. -/
def Plain (text : Bytes) : Prop := 0 ∉ text ∧ 0x20 ∉ text.dropLast

instance (text : Bytes) : Decidable (Plain text) := inferInstanceAs (Decidable (_ ∧ _))

theorem startsWith_iff {pkt text : Bytes} {t : Text} (hs : Stands pkt t) (ht : Plain text) :
    startsWith pkt t text = true ↔ text <+: t.bytes ++ [0x20] := by
  obtain ⟨x, hx⟩ := hs
  rw [startsWith, strncmpEqual_iff_prefix ht.1, hx]
  exact prefix_delim ht.2

/-- A text without a space is compared with the token alone. -/
theorem startsWith_token_iff {pkt text : Bytes} {t : Text} (hs : Stands pkt t) (ht : Plain text)
    (hspace : 0x20 ∉ text) : startsWith pkt t text = true ↔ text <+: t.bytes := by
  rw [startsWith_iff hs ht, List.prefix_concat_iff]
  constructor
  · rintro (rfl | h)
    · simp at hspace
    · exact h
  · exact Or.inr

theorem startsWith_eq {pkt pkt' text : Bytes} {t : Text} (hs : Stands pkt t) (hs' : Stands pkt' t)
    (ht : Plain text) : startsWith pkt t text = startsWith pkt' t text := by
  rw [Bool.eq_iff_iff, startsWith_iff hs ht, startsWith_iff hs' ht]

theorem sdkEndpoints_plain : ∀ e ∈ sdkEndpoints, Plain e ∧ 0x20 ∉ e := by
  decide +kernel

theorem findIdx?_congr {α : Type} {l : List α} {p q : α → Bool} (h : ∀ x ∈ l, p x = q x) :
    l.findIdx? p = l.findIdx? q := by
  induction l with
  | nil => rfl
  | cons x l ih =>
    rw [List.findIdx?_cons, List.findIdx?_cons, h x List.mem_cons_self,
      ih fun y hy => h y (List.mem_cons_of_mem x hy)]

/-- The status is the same in every buffer where the method and the path stand. -/
theorem selectStatus_eq {pkt pkt' : Bytes} {meth path : Text} (hm : Stands pkt meth)
    (hm' : Stands pkt' meth) (hp : Stands pkt path) (hp' : Stands pkt' path) :
    selectStatus pkt meth path = selectStatus pkt' meth path := by
  have hmeth : ∀ {text}, Plain text → startsWith pkt meth text = startsWith pkt' meth text :=
    startsWith_eq hm hm'
  have hpath : ∀ {text}, Plain text → startsWith pkt path text = startsWith pkt' path text :=
    startsWith_eq hp hp'
  have hendpoints : sdkEndpoints.findIdx? (startsWith pkt path) =
      sdkEndpoints.findIdx? (startsWith pkt' path) :=
    findIdx?_congr fun e he => hpath (sdkEndpoints_plain e he).1
  simp only [selectStatus, hendpoints, hmeth (show Plain (ascii "OPTIONS") by decide),
    hmeth (show Plain (ascii "GET") by decide), hmeth (show Plain (ascii "POST") by decide),
    hmeth (show Plain (ascii "HEAD") by decide), hpath (show Plain (ascii "/ ") by decide),
    hpath (show Plain (ascii "/?") by decide), hpath (show Plain (ascii "/generate_204") by decide),
    hpath (show Plain (ascii "/gen_204") by decide), hpath (show Plain (ascii "/") by decide)]

/-- The texts of the endpoints that have a handler. -/
def handledEndpoints : List Bytes := handled.filterMap fun i => sdkEndpoints[i]?

/-- Neither of two texts starts the other, so nothing starts with both. -/
def Apart (t u : Bytes) : Prop := ¬ t <+: u ∧ ¬ u <+: t

instance (t u : Bytes) : Decidable (Apart t u) := inferInstanceAs (Decidable (_ ∧ _))

theorem Apart.not_both {t u s : Bytes} (h : Apart t u) (ht : t <+: s) : ¬ u <+: s := fun hu =>
  (List.prefix_or_prefix_of_prefix ht hu).elim h.1 h.2

theorem sdkEndpoints_apart : sdkEndpoints.Pairwise Apart := by
  decide +kernel

/-- The paths tried before the endpoints. -/
theorem sdkEndpoints_apart_tried : ∀ e ∈ sdkEndpoints,
    ∀ f ∈ [ascii "/ ", ascii "/?", ascii "/generate_204", ascii "/gen_204"], Apart e f := by
  decide +kernel

/-- What starts with an endpoint's text is found at that endpoint. -/
theorem findIdx?_endpoint {pkt : Bytes} {path : Text} (hp : Stands pkt path) {i : Nat} :
    sdkEndpoints.findIdx? (startsWith pkt path) = some i ↔
      ∃ e, sdkEndpoints[i]? = some e ∧ e <+: path.bytes := by
  have htoken : ∀ e ∈ sdkEndpoints, startsWith pkt path e = true ↔ e <+: path.bytes := fun e he =>
    startsWith_token_iff hp (sdkEndpoints_plain e he).1 (sdkEndpoints_plain e he).2
  rw [List.findIdx?_eq_some_iff_getElem]
  constructor
  · rintro ⟨hi, hstart, -⟩
    exact ⟨sdkEndpoints[i], List.getElem?_eq_getElem hi, (htoken _ (List.getElem_mem hi)).mp hstart⟩
  · intro ⟨e, he, hbegin⟩
    obtain ⟨hi, rfl⟩ := List.getElem?_eq_some_iff.mp he
    refine ⟨hi, (htoken _ (List.getElem_mem hi)).mpr hbegin, fun j hj hstart => ?_⟩
    have hj' : j < sdkEndpoints.length := by omega
    have hapart := List.pairwise_iff_getElem.mp sdkEndpoints_apart j i hj' hi hj
    exact hapart.not_both ((htoken _ (List.getElem_mem hj')).mp hstart) hbegin

/-- A POST request selects a handler where its path starts with the text of one. -/
theorem selectStatus_handled {pkt : Bytes} {meth path : Text} (hm : Stands pkt meth)
    (hp : Stands pkt path) (hpost : ascii "POST" <+: meth.bytes) :
    selectStatus pkt meth path ∈ handled ↔ ∃ e ∈ handledEndpoints, e <+: path.bytes := by
  have hispost : startsWith pkt meth (ascii "POST") = true :=
    (startsWith_token_iff hm (by decide) (by decide)).mpr hpost
  have hoptions : startsWith pkt meth (ascii "OPTIONS") = false := by
    rw [Bool.eq_false_iff, ne_eq, startsWith_token_iff hm (by decide) (by decide)]
    exact Apart.not_both (by decide) hpost
  constructor
  · intro h
    rw [selectStatus, hoptions, hispost] at h
    simp only [Bool.false_eq_true, if_false, Bool.or_true, Bool.true_or, Bool.not_true, if_true] at h
    split at h
    · exact absurd h (by decide)
    split at h
    · exact absurd h (by decide)
    split at h
    · next i hfound =>
      obtain ⟨e, he, hbegin⟩ := (findIdx?_endpoint hp).mp hfound
      exact ⟨e, List.mem_filterMap.mpr ⟨i, h, he⟩, hbegin⟩
    · split at h <;> exact absurd h (by decide)
  · intro ⟨e, he, hbegin⟩
    obtain ⟨i, hi, hei⟩ := List.mem_filterMap.mp he
    have hfound := (findIdx?_endpoint hp).mpr ⟨e, hei, hbegin⟩
    have hmem : e ∈ sdkEndpoints := List.mem_of_getElem? hei
    have hnot : ∀ f ∈ [ascii "/ ", ascii "/?", ascii "/generate_204", ascii "/gen_204"],
        Plain f → startsWith pkt path f = false := by
      intro f hf hplain
      rw [Bool.eq_false_iff, ne_eq, startsWith_iff hp hplain]
      exact (sdkEndpoints_apart_tried e hmem f hf).not_both (hbegin.trans (List.prefix_append _ _))
    have hroot := hnot (ascii "/ ") (by simp) (by decide)
    have hquery := hnot (ascii "/?") (by simp) (by decide)
    have hgenerate := hnot (ascii "/generate_204") (by simp) (by decide)
    have hgen := hnot (ascii "/gen_204") (by simp) (by decide)
    rw [selectStatus, hoptions, hispost, hroot, hquery, hgenerate, hgen, hfound]
    simpa using hi

/-- Where the method and the path stand, the bodies alone tell two buffers apart. -/
theorem select_eq_iff {pkt pkt' : Bytes} {meth path : Text} (minorVersion : Int) (n : Nat)
    (hs : Stands pkt meth ∧ Stands pkt path) (hs' : Stands pkt' meth ∧ Stands pkt' path) :
    select pkt meth path minorVersion n = select pkt' meth path minorVersion n ↔
      (ascii "POST" <+: meth.bytes → (∃ e ∈ handledEndpoints, e <+: path.bytes) →
        cstr (pkt.drop n) = cstr (pkt'.drop n)) := by
  have hstatus := selectStatus_eq hs.1 hs'.1 hs.2 hs'.2
  have hpost : startsWith pkt meth (ascii "POST") = true ↔ ascii "POST" <+: meth.bytes :=
    startsWith_token_iff hs.1 (by decide) (by decide)
  have hpost' : startsWith pkt' meth (ascii "POST") = true ↔ ascii "POST" <+: meth.bytes :=
    startsWith_token_iff hs'.1 (by decide) (by decide)
  have hhandled := selectStatus_handled hs'.1 hs'.2
  simp only [select, hstatus, Selection.mk.injEq, true_and]
  by_cases hm : ascii "POST" <+: meth.bytes
  · rw [if_pos (hpost.mpr hm), if_pos (hpost'.mpr hm)]
    by_cases hp : ∃ e ∈ handledEndpoints, e <+: path.bytes
    · rw [if_pos ((hhandled hm).mpr hp), if_pos ((hhandled hm).mpr hp), Option.some_inj]
      exact ⟨fun h _ _ => h, fun h => h hm hp⟩
    · rw [if_neg fun h => hp ((hhandled hm).mp h), if_neg fun h => hp ((hhandled hm).mp h)]
      exact ⟨fun _ _ h => absurd h hp, fun _ => rfl⟩
  · rw [if_neg fun h => hm (hpost.mp h), if_neg fun h => hm (hpost'.mp h)]
    exact ⟨fun _ h => absurd h hm, fun _ => rfl⟩

/-! ## Requests and their pieces -/

/-- A complete request that leaves room in the buffer. -/
structure Request where
  bytes : Bytes
  short : bytes.length < bufLen
  complete : 0 ≤ (phrParseRequest bytes 0).ret

namespace Request

variable (r : Request)

def parsed : Parsed := phrParseRequest r.bytes 0

/-- The length of the head. -/
def head : Nat := r.parsed.ret.toNat

theorem parsed_ret : (phrParseRequest r.bytes 0).ret = r.head := (Int.toNat_of_nonneg r.complete).symm

theorem head_le : r.head ≤ r.bytes.length := by
  obtain ⟨head, hr⟩ := accepted r.parsed_ret
  exact hr.within

variable {r}

/-- A buffer with the same head is parsed the same. -/
theorem parsed_eq {buf : Bytes} (h : buf.take r.head = r.bytes.take r.head) :
    phrParseRequest buf 0 = r.parsed := phrParseRequest_head r.parsed_ret h

/-- The method and path stand in every buffer with the same head. -/
theorem texts : ∃ meth path, r.parsed.method = some meth ∧ r.parsed.path = some path ∧
    ∀ buf : Bytes, buf.take r.head = r.bytes.take r.head → Stands buf meth ∧ Stands buf path := by
  obtain ⟨meth, path, -, -, hm, hp, -, -⟩ := phrParseRequest_texts r.parsed_ret
  refine ⟨meth, path, hm, hp, fun buf h => ?_⟩
  have hparsed := parsed_eq h
  have hret : (phrParseRequest buf 0).ret = r.head := by
    rw [hparsed]
    exact r.parsed_ret
  obtain ⟨meth', path', x, y, hm', hp', hx, hy⟩ := phrParseRequest_texts hret
  rw [hparsed] at hm' hp'
  cases hm.symm.trans hm'
  cases hp.symm.trans hp'
  exact ⟨⟨x, hx⟩, y, hy⟩

variable (r)

/-- A POST to an endpoint that hands the body to a handler. -/
def HandsBody : Prop :=
  ∃ meth path, r.parsed.method = some meth ∧ r.parsed.path = some path ∧
    ascii "POST" <+: meth.bytes ∧ ∃ e ∈ handledEndpoints, e <+: path.bytes

end Request

/-- One way to deliver a request: pieces that are not empty and make up its bytes. -/
structure Pieces (r : Request) where
  first : Bytes
  more : List Bytes
  nonempty : ∀ piece ∈ first :: more, piece ≠ []
  joined : (first :: more).flatten = r.bytes

def Pieces.recvs {r : Request} (s : Pieces r) : List Recv := (s.first :: s.more).map .data

def zeroed : Bytes := List.replicate bufLen 0

/-- The request in one piece, into a buffer of zeros. -/
def Request.alone (r : Request) : Except Fault Served := serve zeroed [.data r.bytes]

theorem Pieces.first_prefix {r : Request} (s : Pieces r) : s.first <+: r.bytes :=
  ⟨s.more.flatten, s.joined⟩

theorem Pieces.first_short {r : Request} (s : Pieces r) : s.first.length < bufLen :=
  s.first_prefix.length_le.trans_lt r.short

theorem Pieces.first_head {r : Request} (s : Pieces r) (h : r.head ≤ s.first.length) :
    s.first.take r.head = r.bytes.take r.head := by
  rw [List.prefix_iff_eq_take.mp s.first_prefix, List.take_take, Nat.min_eq_left h]

theorem storeAt_zero {buf bs : Bytes} (h : bs.length ≤ buf.length) :
    storeAt buf 0 bs = .ok (bs ++ buf.drop bs.length) := storeAt_append (a := []) h

/-- The NUL goes behind what was received. -/
theorem storeAt_end {c x : Bytes} {b : UInt8} (hx : x ≠ []) :
    storeAt (c ++ x) c.length [b] = .ok (c ++ b :: x.tail) := by
  rw [storeAt_append (c := [b]) (List.length_pos_iff.mpr hx), List.append_assoc, List.length_singleton,
    List.drop_one]
  rfl

/-- A first piece with all of the head is the request, with its own end as the body's. -/
theorem serve_head (r : Request) {prior piece : Bytes} (more : List Recv)
    (hprior : prior.length = bufLen) (hshort : piece.length < bufLen)
    (hhead : piece.take r.head = r.bytes.take r.head) {meth path : Text}
    (hm : r.parsed.method = some meth) (hp : r.parsed.path = some path) :
    serve prior (.data piece :: more) =
      .ok (.selected (select piece meth path r.parsed.minorVersion r.head)) := by
  obtain ⟨meth', path', hm', hp', hstands⟩ := r.texts
  cases hm.symm.trans hm'
  cases hp.symm.trans hp'
  have hlen : r.head ≤ piece.length := by
    have hlen := congrArg List.length hhead
    have hle := r.head_le
    rw [List.length_take, List.length_take] at hlen
    omega
  have hbehind : prior.drop piece.length ≠ [] := by
    rw [ne_eq, List.drop_eq_nil_iff]
    omega
  have hsame : ∀ x, (piece ++ x).take r.head = r.bytes.take r.head := by
    intro x
    rw [List.take_append_of_le_length hlen, hhead]
  have hret := r.parsed_ret
  have hread : readLoop prior 0 (.data piece :: more) =
      .ok (.parsed (piece ++ prior.drop piece.length) piece.length r.parsed) := by
    rw [readLoop, storeAt_zero (by omega)]
    simp only [Request.parsed_eq (hsame _), Nat.zero_add]
    rw [if_pos]
    rw [Request.parsed]
    omega
  have hnot : ¬ r.parsed.ret < 0 := by
    rw [Request.parsed]
    omega
  rw [serve, hread, ok_bind, respond, if_neg hnot, storeAt_end hbehind, hm, hp]
  have hselect : select (piece ++ 0 :: (prior.drop piece.length).tail) meth path
      r.parsed.minorVersion r.head = select piece meth path r.parsed.minorVersion r.head := by
    rw [select_eq_iff _ _ (hstands _ (hsame _)) (hstands _ hhead)]
    intro _ _
    rw [List.drop_append_of_le_length hlen, cstr_append_nul]
  show Except.ok (Served.selected (select _ meth path r.parsed.minorVersion r.head)) = _
  rw [hselect]

/-- A first piece that ends inside the head, with zeros behind it, is refused. -/
theorem serve_short (r : Request) (piece : Bytes) (more : List Recv) (hpiece : piece <+: r.bytes)
    (hshort : piece.length < r.head) : ∃ parsed,
      serve zeroed (.data piece :: more) = .ok (.refused 400 parsed) := by
  have hle := r.head_le
  have hroom := r.short
  have hstore : storeAt zeroed 0 piece = .ok (piece ++ zeroed.drop piece.length) := by
    refine storeAt_zero ?_
    rw [zeroed, List.length_replicate]
    omega
  have hzeros : zeroed.drop piece.length = 0 :: List.replicate (bufLen - piece.length - 1) 0 := by
    rw [zeroed, List.drop_replicate, ← List.replicate_succ, Nat.sub_add_cancel (by omega)]
  have hret : (phrParseRequest (piece ++ zeroed.drop piece.length) 0).ret = -1 := by
    rw [hzeros, List.prefix_iff_eq_take.mp hpiece, List.length_take, Nat.min_eq_left (by omega)]
    refine phrParseRequest_nul r.parsed_ret hshort ?_
    rw [List.length_replicate]
    omega
  refine ⟨phrParseRequest (piece ++ zeroed.drop piece.length) 0, ?_⟩
  rw [serve, readLoop, hstore]
  simp only [hret]
  rw [if_pos (by omega), ok_bind, respond, if_pos (by omega)]

theorem zeroed_length : zeroed.length = bufLen := List.length_replicate

/-- The whole request in one piece. -/
theorem serve_alone (r : Request) {meth path : Text} (hm : r.parsed.method = some meth)
    (hp : r.parsed.path = some path) :
    r.alone = .ok (.selected (select r.bytes meth path r.parsed.minorVersion r.head)) :=
  serve_head r [] zeroed_length r.short rfl hm hp

/-! ## When the answer depends on the request alone -/

/-- The bytes of the body that the handler sees are in the first piece with the head. -/
def Pieces.Holds {r : Request} (s : Pieces r) : Prop :=
  r.head ≤ s.first.length ∧
    (r.HandsBody → cstr (s.first.drop r.head) = cstr (r.bytes.drop r.head))

theorem served_alike_of_holds {r : Request} {s : Pieces r} (h : s.Holds) {prior : Bytes}
    (hprior : prior.length = bufLen) : serve prior s.recvs = r.alone := by
  obtain ⟨meth, path, hm, hp, hstands⟩ := r.texts
  have hhead := s.first_head h.1
  rw [serve_alone r hm hp, Pieces.recvs, List.map_cons,
    serve_head r _ hprior s.first_short hhead hm hp]
  have hselect := (select_eq_iff r.parsed.minorVersion r.head (hstands _ hhead)
    (hstands _ rfl)).mpr fun hpost hpath => h.2 ⟨meth, path, hm, hp, hpost, hpath⟩
  rw [hselect]

theorem holds_of_served_alike {r : Request} {s : Pieces r} (h : serve zeroed s.recvs = r.alone) :
    s.Holds := by
  obtain ⟨meth, path, hm, hp, hstands⟩ := r.texts
  rw [serve_alone r hm hp, Pieces.recvs, List.map_cons] at h
  have hlen : r.head ≤ s.first.length := by
    by_contra hlt
    obtain ⟨parsed, hrefused⟩ := serve_short r s.first (s.more.map .data) s.first_prefix (by omega)
    cases hrefused.symm.trans h
  have hhead := s.first_head hlen
  rw [serve_head r _ zeroed_length s.first_short hhead hm hp] at h
  simp only [Except.ok.injEq, Served.selected.injEq] at h
  refine ⟨hlen, ?_⟩
  intro ⟨meth', path', hm', hp', hpost, hpath⟩
  cases hm.symm.trans hm'
  cases hp.symm.trans hp'
  exact (select_eq_iff _ _ (hstands _ hhead) (hstands _ rfl)).mp h hpost hpath

/-- Whatever earlier connections left in the buffer, a request in pieces is served as in one
piece exactly when its first piece has the head and what a handler sees of the body. -/
theorem pieces_alike_iff (r : Request) (s : Pieces r) :
    (∀ prior : Bytes, prior.length = bufLen → serve prior s.recvs = r.alone) ↔ s.Holds :=
  ⟨fun h => holds_of_served_alike (h zeroed zeroed_length),
    fun h _ hprior => served_alike_of_holds h hprior⟩

/-! ## A body that comes later -/

/-- A complete request to `/log`. -/
def logRequest : Request where
  bytes := ascii "POST /log HTTP/1.1\r\nContent-Length: 2\r\n\r\n\x7b\x7d"
  short := by decide +kernel
  complete := by decide +kernel

/-- The head first, the body behind it. -/
def headThenBody : Pieces logRequest where
  first := ascii "POST /log HTTP/1.1\r\nContent-Length: 2\r\n\r\n"
  more := [ascii "\x7b\x7d"]
  nonempty := by decide
  joined := by decide

/-- Its handler is given an empty body. -/
theorem body_left_out : ¬ ∀ (r : Request) (s : Pieces r) (prior : Bytes), prior.length = bufLen →
    serve prior s.recvs = r.alone := by
  intro h
  have hholds := holds_of_served_alike (h logRequest headThenBody zeroed zeroed_length)
  have hhands : logRequest.HandsBody :=
    ⟨⟨0, ascii "POST"⟩, ⟨5, ascii "/log"⟩, by decide +kernel, by decide +kernel, by decide,
      ascii "/log", by decide +kernel, by decide⟩
  have hbody : cstr (headThenBody.first.drop logRequest.head) ≠
      cstr (logRequest.bytes.drop logRequest.head) := by
    decide +kernel
  exact hbody (hholds.2 hhands)

end Yagips.Http.Chunking

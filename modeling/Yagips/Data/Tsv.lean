import Yagips.Game.OpenStates
import Yagips.Lib.Strsep

/-!
# Tables of tab-separated lines

`loadTsvExcelData` reads a file line by line and takes a row from every line but the first. The end
of the file is seen only by a read that runs into it, so a file that ends with a line break gives
one more line, which is empty. The lines are counted with an `unsigned int`.
-/
namespace Yagips.Data

open Yagips.Lib
open Yagips.Lib.Strsep
open Yagips.Game.OpenStates (Row tryGetKey getlines fieldNames)

/-- The delimiters of cells. -/
def tsvDelim (b : UInt8) : Bool := b = 0x09 || b = 0x0d || b = 0x0a

/-- The assignment `ent[k] = x`. -/
def assign (ent : Row) (k : String) (x : Bytes) : Row :=
  if ent.any fun field => field.1 = k then
    ent.map fun field => if field.1 = k then (k, x) else field
  else ent ++ [(k, x)]

/-- The loop over the columns, which goes on without a cell. -/
def fieldLoop : List String → Option Bytes → Row → Row
  | [], _, ent => ent
  | name :: names, j, ent =>
    match strsep tsvDelim j with
    | (none, j) => fieldLoop names j ent
    | (some tsv_ent, j) => fieldLoop names j (assign ent name tsv_ent)

/-- The row of a line. The counter of the columns is an `unsigned int` and never reaches a number of
them that is not. -/
def tsvEntry (field_list : List String) (line : Bytes) : Except Fault Row :=
  if 2 ^ 32 ≤ field_list.length then .error .endless
  else .ok (fieldLoop field_list (some (cstr line)) [])

/-- The loop over the lines there are to read, behind the rows there are. -/
def lineLoop (field_list : List String) : UInt32 → List Bytes → List Row → Except Fault (List Row)
  | _, [], tbl => .ok tbl
  | l, line :: rest, tbl =>
    let l := l + 1
    -- the first line holds the headers
    if l ≤ 1 then lineLoop field_list l rest tbl
    else do
      let ent ← tsvEntry field_list line
      lineLoop field_list l rest (tbl ++ [ent])

def loadTsvExcelData (field_list : List String) (content : Bytes) : Except Fault (List Row) :=
  lineLoop field_list 0 (getlines [] content) []

/-! ## The row of a line -/

theorem assign_new {ent : Row} {k : String} (h : k ∉ ent.map (·.1)) (x : Bytes) :
    assign ent k x = ent ++ [(k, x)] := by
  rw [assign, if_neg]
  intro hany
  obtain ⟨field, hmem, hkey⟩ := List.any_eq_true.mp hany
  exact h (List.mem_map.mpr ⟨field, hmem, of_decide_eq_true hkey⟩)

/-- Under distinct names the columns take the parts of the line in order. -/
theorem fieldLoop_eq {names : List String} (hnames : names.Nodup) (j : Option Bytes) {ent : Row}
    (hent : ∀ name ∈ names, name ∉ ent.map (·.1)) :
    fieldLoop names j ent = ent ++ names.zip (parts tsvDelim j) := by
  induction names generalizing j ent with
  | nil => simp [fieldLoop]
  | cons name names ih =>
    obtain ⟨hname, hnodup⟩ := List.nodup_cons.mp hnames
    rw [fieldLoop]
    cases j with
    | none =>
      have hrest := ih hnodup none fun name' h' => hent name' (List.mem_cons_of_mem name h')
      simpa [strsep, parts] using hrest
    | some s =>
      obtain ⟨t, j, hstrsep, hparts⟩ := strsep_some tsvDelim s
      have hfresh : ∀ name' ∈ names, name' ∉ (ent ++ [(name, t)]).map (·.1) := by
        intro name' h'
        rw [List.map_append, List.mem_append, not_or]
        refine ⟨hent name' (List.mem_cons_of_mem name h'), fun hin => ?_⟩
        have hsame : name' = name := List.mem_singleton.mp hin
        exact hname (hsame ▸ h')
      rw [hstrsep]
      dsimp only
      rw [assign_new (hent name List.mem_cons_self), ih hnodup j hfresh, hparts, List.zip_cons_cons,
        List.append_assoc, List.singleton_append]

theorem tsvEntry_eq {field_list : List String} (hnames : field_list.Nodup) (hk : field_list.length < 2 ^ 32)
    (line : Bytes) :
    tsvEntry field_list line = .ok (field_list.zip ((cstr line).splitOnP tsvDelim)) := by
  rw [tsvEntry, if_neg (Nat.not_le.mpr hk), fieldLoop_eq hnames _ fun _ _ => List.not_mem_nil]
  rfl

/-! ## Which lines give a row -/

/-- The lines that are not skipped, when `l` have been counted. -/
def kept : UInt32 → List Bytes → List Bytes
  | _, [] => []
  | l, line :: rest => if l + 1 ≤ 1 then kept (l + 1) rest else line :: kept (l + 1) rest

theorem lineLoop_eq (field_list : List String) (l : UInt32) (lines : List Bytes) (tbl : List Row) :
    lineLoop field_list l lines tbl =
      (kept l lines).mapM (tsvEntry field_list) >>= fun rows => .ok (tbl ++ rows) := by
  induction lines generalizing l tbl with
  | nil => exact congrArg Except.ok (List.append_nil tbl).symm
  | cons line rest ih =>
    rw [lineLoop, kept]
    by_cases hl : l + 1 ≤ 1
    · rw [if_pos hl, if_pos hl, ih]
    · rw [if_neg hl, if_neg hl, List.mapM_cons]
      cases tsvEntry field_list line with
      | error e => rfl
      | ok ent =>
        rw [ok_bind, ok_bind, ih]
        cases (kept (l + 1) rest).mapM (tsvEntry field_list) with
        | error e => rfl
        | ok rows =>
          rw [ok_bind, ok_bind, List.append_assoc]
          rfl

theorem kept_append (l : UInt32) (a b : List Bytes) :
    kept l (a ++ b) = kept l a ++ kept (l + UInt32.ofNat a.length) b := by
  induction a generalizing l with
  | nil => simp [kept]
  | cons line a ih =>
    have hcount : l + 1 + UInt32.ofNat a.length = l + UInt32.ofNat (line :: a).length := by
      rw [List.length_cons, UInt32.ofNat_add, UInt32.add_assoc, UInt32.add_comm 1]
      rfl
    rw [List.cons_append, kept, kept, ih, hcount]
    split_ifs
    · rfl
    · rfl

theorem kept_length_le (l : UInt32) (lines : List Bytes) : (kept l lines).length ≤ lines.length := by
  induction lines generalizing l with
  | nil => exact le_rfl
  | cons line rest ih =>
    have hrest := ih (l + 1)
    rw [kept]
    split_ifs
    · rw [List.length_cons]
      omega
    · rw [List.length_cons, List.length_cons]
      omega

/-- While the count does not wrap, no line behind the first is skipped. -/
theorem kept_all {l : UInt32} {lines : List Bytes} (hl : 1 ≤ l.toNat)
    (hfit : l.toNat + lines.length < 2 ^ 32) : kept l lines = lines := by
  induction lines generalizing l with
  | nil => rfl
  | cons line rest ih =>
    rw [List.length_cons] at hfit
    have hnext : (l + 1).toNat = l.toNat + 1 := by
      rw [UInt32.toNat_add]
      change (l.toNat + 1) % 2 ^ 32 = _
      omega
    have hbeyond : ¬ l + 1 ≤ 1 := by
      rw [UInt32.le_iff_toNat_le, hnext]
      change ¬ l.toNat + 1 ≤ 1
      omega
    rw [kept, if_neg hbeyond, ih (by omega) (by omega)]

theorem kept_header (header : Bytes) (lines : List Bytes) : kept 0 (header :: lines) = kept 1 lines := rfl

theorem kept_tail {header : Bytes} {lines : List Bytes} (h : lines.length + 1 < 2 ^ 32) :
    kept 0 (header :: lines) = lines := by
  rw [kept_header, kept_all (by decide)]
  change 1 + lines.length < 2 ^ 32
  omega

/-- The line that brings the count to 0 is skipped, and the one behind it. -/
theorem kept_wrapped {header : Bytes} {a b : List Bytes} {line : Bytes} (ha : a.length + 2 = 2 ^ 32) :
    kept 0 (header :: (a ++ line :: b)) = a ++ kept 0 b := by
  have hcount : 1 + UInt32.ofNat a.length + 1 = (0 : UInt32) := by
    rw [← UInt32.toNat_inj, UInt32.toNat_add, UInt32.toNat_add, UInt32.toNat_ofNat']
    change ((1 + a.length % 2 ^ 32) % 2 ^ 32 + 1) % 2 ^ 32 = 0
    omega
  have hall : kept 1 a = a := kept_all (by decide) (by change 1 + a.length < 2 ^ 32; omega)
  rw [kept_header, kept_append, hall, kept, hcount]
  rfl

/-! ## The loader of the open states -/

theorem mapM_entry {field_list : List String} (hnames : field_list.Nodup) (hk : field_list.length < 2 ^ 32)
    (lines : List Bytes) : lines.mapM (tsvEntry field_list) =
      .ok (lines.map fun line => field_list.zip ((cstr line).splitOnP tsvDelim)) :=
  mapM_ok fun line _ => tsvEntry_eq hnames hk line

theorem getlines_ne_nil (line content : Bytes) : getlines line content ≠ [] := by
  induction content generalizing line with
  | nil => exact List.cons_ne_nil _ _
  | cons b content ih =>
    rw [getlines]
    split_ifs
    · exact List.cons_ne_nil _ _
    · exact ih _

/-- A file of the open states is read to the same rows. -/
theorem loadTsvExcelData_openStates {content : Bytes} (h : (getlines [] content).length < 2 ^ 32) :
    loadTsvExcelData fieldNames content = .ok (Game.OpenStates.loadTsvExcelData content) := by
  obtain ⟨header, lines, hlines⟩ := List.exists_cons_of_ne_nil (getlines_ne_nil [] content)
  rw [hlines, List.length_cons] at h
  rw [loadTsvExcelData, Game.OpenStates.loadTsvExcelData, hlines, lineLoop_eq, kept_tail h,
    mapM_entry (by decide) (by decide)]
  rfl

/-! ## Files -/

/-- A line of data: `k` cells, and whether its break has a CR. -/
structure DataLine (k : Nat) where
  cells : List Bytes
  crlf : Bool
  length : cells.length = k
  clean : ∀ c ∈ cells, ∀ b ∈ c, b ≠ 0 ∧ tsvDelim b = false

def lineBreak (crlf : Bool) : Bytes := if crlf then [0x0d, 0x0a] else [0x0a]

namespace DataLine

variable {k : Nat}

def text (line : DataLine k) : Bytes := [0x09].intercalate line.cells

end DataLine

/-- A file: the header, the lines of data, and whether the last line of it has its break. -/
structure TsvFile (k : Nat) where
  header : Bytes
  headerCrlf : Bool
  lines : List (DataLine k)
  terminated : Bool
  header_line : 0x0a ∉ header

/-- Lines with the breaks between them. -/
def joinLines (terminated : Bool) : Bytes → Bool → List (Bytes × Bool) → Bytes
  | text, crlf, [] => text ++ if terminated then lineBreak crlf else []
  | text, crlf, (text', crlf') :: rest => text ++ lineBreak crlf ++ joinLines terminated text' crlf' rest

def TsvFile.content {k : Nat} (f : TsvFile k) : Bytes :=
  joinLines f.terminated f.header f.headerCrlf (f.lines.map fun line => (line.text, line.crlf))

/-! ## The lines of a file -/

theorem getlines_break {text : Bytes} (h : 0x0a ∉ text) (line rest : Bytes) :
    getlines line (text ++ 0x0a :: rest) = (line ++ text ++ [0x0a]) :: getlines [] rest := by
  induction text generalizing line with
  | nil => rw [List.nil_append, getlines, if_pos rfl, List.append_nil]
  | cons b text ih =>
    have hb : b ≠ 0x0a := fun hb => h (hb ▸ List.mem_cons_self)
    rw [List.cons_append, getlines, if_neg hb, ih fun hmem => h (List.mem_cons_of_mem b hmem)]
    simp

theorem getlines_last {text : Bytes} (h : 0x0a ∉ text) (line : Bytes) : getlines line text = [line ++ text] := by
  induction text generalizing line with
  | nil => rw [getlines, List.append_nil]
  | cons b text ih =>
    have hb : b ≠ 0x0a := fun hb => h (hb ▸ List.mem_cons_self)
    rw [getlines, if_neg hb, ih fun hmem => h (List.mem_cons_of_mem b hmem)]
    simp

theorem getlines_lineBreak {text : Bytes} (h : 0x0a ∉ text) (crlf : Bool) (rest : Bytes) :
    getlines [] (text ++ lineBreak crlf ++ rest) = (text ++ lineBreak crlf) :: getlines [] rest := by
  cases crlf with
  | false => simpa [lineBreak] using getlines_break h [] rest
  | true =>
    have hcr : 0x0a ∉ text ++ [0x0d] := by simpa using h
    simpa [lineBreak] using getlines_break hcr [] rest

/-- What is read of a line: its text and its break, or the text alone. -/
def ReadAs {k : Nat} (line : DataLine k) (raw : Bytes) : Prop :=
  ∃ tail, raw = line.text ++ tail ∧ (tail = [] ∨ ∃ crlf, tail = lineBreak crlf)

/-- The header, the lines of data, and one more that is empty behind a last break. -/
theorem getlines_joinLines {k : Nat} (terminated : Bool) {text : Bytes} (htext : 0x0a ∉ text) (crlf : Bool)
    (lines : List (DataLine k)) (hlines : ∀ line ∈ lines, 0x0a ∉ line.text) :
    ∃ raw raws, getlines [] (joinLines terminated text crlf (lines.map fun line => (line.text, line.crlf))) =
        raw :: (raws ++ if terminated then [[]] else []) ∧
      List.Forall₂ ReadAs lines raws ∧ (raw = text ∨ raw = text ++ lineBreak crlf) := by
  induction lines generalizing text crlf with
  | nil =>
    cases terminated with
    | false =>
      refine ⟨text, [], ?_, .nil, .inl rfl⟩
      simpa [joinLines] using getlines_last htext []
    | true =>
      refine ⟨text ++ lineBreak crlf, [], ?_, .nil, .inr rfl⟩
      have hbreak := getlines_lineBreak htext crlf []
      rw [List.append_nil] at hbreak
      exact hbreak
  | cons line lines ih =>
    obtain ⟨raw, raws, hraws, hread, hraw⟩ := ih (hlines line List.mem_cons_self) line.crlf
      fun line' h' => hlines line' (List.mem_cons_of_mem line h')
    refine ⟨text ++ lineBreak crlf, raw :: raws, ?_, .cons ?_ hread, .inr rfl⟩
    · rw [List.map_cons, joinLines, getlines_lineBreak htext, hraws]
      rfl
    · rcases hraw with hraw | hraw
      · exact ⟨[], by rw [hraw, List.append_nil], .inl rfl⟩
      · exact ⟨_, hraw, .inr ⟨_, rfl⟩⟩

/-! ## The rows of a file -/

/-- The columns have the cells in order. -/
def RowMaps (names : List String) (cells : List Bytes) (row : Row) : Prop :=
  ∀ (i : Nat) (name : String), names[i]? = some name → row.lookup name = cells[i]?

/-- One row for each line of data, in order. -/
def Loads (names : List String) (f : TsvFile names.length) (tbl : List Row) : Prop :=
  List.Forall₂ (fun line row => RowMaps names line.cells row) f.lines tbl

theorem rowMaps_zip {names : List String} (hnames : names.Nodup) (cells : List Bytes)
    (hlen : names.length = cells.length) : RowMaps names cells (names.zip cells) := by
  induction names generalizing cells with
  | nil =>
    intro i name hi
    cases hi
  | cons name names ih =>
    cases cells with
    | nil => cases hlen
    | cons c cells =>
      obtain ⟨hname, hnodup⟩ := List.nodup_cons.mp hnames
      intro i name' hi
      rw [List.zip_cons_cons, List.lookup_cons]
      cases i with
      | zero =>
        cases hi
        rw [beq_self_eq_true]
        rfl
      | succ i =>
        have hmem : name' ∈ names := List.mem_of_getElem? hi
        have hne : (name' == name) = false := beq_eq_false_iff_ne.mpr fun h => hname (h ▸ hmem)
        rw [hne]
        exact ih hnodup cells (Nat.succ.inj hlen) i name' hi

theorem DataLine.text_clean {k : Nat} (line : DataLine k) : ∀ b ∈ line.text, b ≠ 0 ∧ b ≠ 0x0a := by
  intro b hb
  rcases mem_intercalate hb with rfl | ⟨c, hc, hbc⟩
  · decide
  · obtain ⟨h0, hdelim⟩ := line.clean c hc b hbc
    refine ⟨h0, fun hlf => ?_⟩
    rw [hlf] at hdelim
    exact absurd hdelim (by decide)

/-- The row of a line, however its end was read. -/
theorem rowMaps_read {names : List String} (hnames : names.Nodup) {line : DataLine names.length} {raw : Bytes}
    (h : ReadAs line raw) : RowMaps names line.cells (names.zip ((cstr raw).splitOnP tsvDelim)) := by
  obtain ⟨tail, hraw, htail⟩ := h
  have hbreak : ∀ crlf : Bool, 0 ∉ lineBreak crlf ∧ ∃ b rest, lineBreak crlf = b :: rest ∧ tsvDelim b = true := by
    intro crlf
    cases crlf with
    | false => exact ⟨by decide, _, _, rfl, rfl⟩
    | true => exact ⟨by decide, _, _, rfl, rfl⟩
  have hnul : 0 ∉ raw := by
    rw [hraw, List.mem_append, not_or]
    refine ⟨fun h0 => (line.text_clean 0 h0).1 rfl, ?_⟩
    rcases htail with rfl | ⟨crlf, rfl⟩
    · exact List.not_mem_nil
    · exact (hbreak crlf).1
  rw [cstr_eq_self_iff.mpr hnul]
  by_cases hcells : line.cells = []
  · have hnone : names = [] := List.length_eq_zero_iff.mp (by rw [← line.length, hcells]; rfl)
    intro i name hi
    rw [hnone] at hi
    cases hi
  · have hend : tail = [] ∨ ∃ b rest, tail = b :: rest ∧ tsvDelim b = true := by
      rcases htail with hnil | ⟨crlf, rfl⟩
      · exact .inl hnil
      · exact .inr (hbreak crlf).2
    obtain ⟨more, hmore⟩ := prefix_parts tsvDelim (d := 0x09) rfl hcells
      (fun c hc b hb => (line.clean c hc b hb).2) hend
    have hzip : names.zip (line.cells ++ more) = names.zip line.cells := by
      have hall : (names ++ []).zip (line.cells ++ more) = names.zip line.cells ++ [].zip more :=
        List.zip_append line.length.symm
      rwa [List.append_nil, List.zip_nil_left, List.append_nil] at hall
    rw [hraw]
    change RowMaps names line.cells (names.zip (parts tsvDelim (some (line.text ++ tail))))
    rw [DataLine.text, ← hmore, hzip]
    exact rowMaps_zip hnames line.cells line.length.symm

/-- Of too many lines to count behind the header, at least one is lost, and two if another follows. -/
theorem kept_short (header : Bytes) {lines : List Bytes} (h : 2 ^ 32 ≤ lines.length + 1) :
    (kept 0 (header :: lines)).length < lines.length ∧
      (2 ^ 32 ≤ lines.length → (kept 0 (header :: lines)).length + 1 < lines.length) := by
  have hsplit : lines = lines.take (2 ^ 32 - 2) ++ lines.drop (2 ^ 32 - 2) := (List.take_append_drop _ _).symm
  have htake : (lines.take (2 ^ 32 - 2)).length = 2 ^ 32 - 2 := List.length_take_of_le (by omega)
  obtain ⟨line, rest, hdrop⟩ : ∃ line rest, lines.drop (2 ^ 32 - 2) = line :: rest := by
    refine List.exists_cons_of_ne_nil (List.length_pos_iff.mp ?_)
    rw [List.length_drop]
    omega
  have hlen : (lines.drop (2 ^ 32 - 2)).length = rest.length + 1 := by rw [hdrop, List.length_cons]
  have hkept : (kept 0 (header :: lines)).length = 2 ^ 32 - 2 + (kept 0 rest).length := by
    rw [hsplit, hdrop, kept_wrapped (by omega), List.length_append, htake]
  rw [List.length_drop] at hlen
  rw [hkept]
  cases rest with
  | nil =>
    rw [List.length_nil] at hlen
    refine ⟨?_, fun hmore => absurd hlen (by omega)⟩
    rw [kept, List.length_nil]
    omega
  | cons y rest =>
    have hle := kept_length_le 1 rest
    rw [List.length_cons] at hlen
    rw [kept_header]
    exact ⟨by omega, fun _ => by omega⟩

/-- The last line has no break and all lines are counted, or the line behind its break is not. -/
def Counted (terminated : Bool) (n : Nat) : Prop :=
  (terminated = false ∧ n + 1 < 2 ^ 32) ∨ (terminated = true ∧ n + 2 = 2 ^ 32)

theorem kept_data {header : Bytes} {raws : List Bytes} {terminated : Bool} (h : Counted terminated raws.length) :
    kept 0 (header :: (raws ++ if terminated then [[]] else [])) = raws := by
  rcases h with ⟨rfl, hn⟩ | ⟨rfl, hn⟩
  · rw [if_neg Bool.false_ne_true, List.append_nil]
    exact kept_tail hn
  · rw [if_pos rfl, kept_wrapped hn]
    exact List.append_nil raws

theorem counted_of_length (header : Bytes) {raws : List Bytes} {terminated : Bool}
    (h : (kept 0 (header :: (raws ++ if terminated then [[]] else []))).length = raws.length) :
    Counted terminated raws.length := by
  cases terminated with
  | false =>
    rw [if_neg Bool.false_ne_true, List.append_nil] at h
    refine .inl ⟨rfl, Nat.lt_of_not_le fun hn => ?_⟩
    have hless := (kept_short header hn).1
    omega
  | true =>
    rw [if_pos rfl] at h
    have hlen : (raws ++ [[]]).length = raws.length + 1 := by rw [List.length_append, List.length_singleton]
    refine .inr ⟨rfl, ?_⟩
    rcases Nat.lt_trichotomy (raws.length + 2) (2 ^ 32) with hn | hn | hn
    · rw [kept_tail (by omega), hlen] at h
      omega
    · exact hn
    · have hless := (kept_short header (show 2 ^ 32 ≤ (raws ++ [[]]).length + 1 by omega)).2 (by omega)
      omega

/-- With too many columns to count, a line that gives a row is never done with. -/
theorem loads_endless {names : List String} (hk : 2 ^ 32 ≤ names.length) (f : TsvFile names.length) (lines : List Bytes) :
    (∃ tbl, (lines.mapM (tsvEntry names) >>= fun rows => .ok ([] ++ rows)) = .ok tbl ∧ Loads names f tbl) ↔
      lines = [] ∧ f.lines = [] := by
  cases lines with
  | nil =>
    constructor
    · intro ⟨tbl, htbl, hloads⟩
      cases htbl
      have hlen := List.Forall₂.length_eq hloads
      exact ⟨rfl, List.length_eq_zero_iff.mp hlen⟩
    · intro ⟨_, hnone⟩
      refine ⟨[], rfl, ?_⟩
      rw [Loads, hnone]
      exact .nil
  | cons line lines =>
    refine iff_of_false ?_ fun h => (nomatch h.1)
    intro ⟨tbl, htbl, _⟩
    rw [List.mapM_cons, tsvEntry, if_pos hk] at htbl
    cases htbl

/-- The rows of a file are those of its lines of data exactly where the last line has no break and the
lines can be counted, or it has one and the line behind it is the one that wraps the count; and where
the columns can be counted, unless there is no line of data. -/
theorem tsv_rows_iff {names : List String} (hnames : names.Nodup) (f : TsvFile names.length) :
    (∃ tbl, loadTsvExcelData names f.content = .ok tbl ∧ Loads names f tbl) ↔
      Counted f.terminated f.lines.length ∧ (f.lines = [] ∨ names.length < 2 ^ 32) := by
  obtain ⟨raw, raws, hraws, hread, -⟩ := getlines_joinLines f.terminated f.header_line f.headerCrlf f.lines
    fun line _ hlf => (line.text_clean 0x0a hlf).2 rfl
  have hlen : f.lines.length = raws.length := hread.length_eq
  rw [loadTsvExcelData, TsvFile.content, hraws, lineLoop_eq, hlen]
  by_cases hk : names.length < 2 ^ 32
  · -- each line that is kept gives a row
    rw [mapM_entry hnames hk, and_iff_left (Or.inr hk)]
    constructor
    · intro ⟨tbl, htbl, hloads⟩
      cases htbl
      have hrows := List.Forall₂.length_eq hloads
      rw [List.nil_append, List.length_map] at hrows
      exact counted_of_length raw (hrows.symm.trans hlen)
    · intro hcounted
      refine ⟨_, rfl, ?_⟩
      rw [kept_data hcounted, List.nil_append, Loads, List.forall₂_map_right_iff]
      exact hread.imp fun line raw h => rowMaps_read hnames h
  · rw [loads_endless (Nat.not_lt.mp hk)]
    constructor
    · intro ⟨hkept, hnone⟩
      rw [hnone, List.length_nil] at hlen
      refine ⟨counted_of_length raw ?_, .inl hnone⟩
      rw [hkept, ← hlen, List.length_nil]
    · intro ⟨hcounted, hor⟩
      have hnone := hor.resolve_right hk
      rw [hnone, List.length_nil] at hlen
      rw [kept_data hcounted]
      exact ⟨List.length_eq_zero_iff.mp hlen.symm, hnone⟩

/-! ## A line with its break and one without -/

/-- One column, and one line of data in it. -/
def oneLine (terminated : Bool) : TsvFile ["id"].length where
  header := ascii "h"
  headerCrlf := false
  lines := [{ cells := [[0x31]], crlf := false, length := rfl, clean := by simp [tsvDelim] }]
  terminated := terminated
  header_line := by decide

theorem tsv_rows_oneLine :
    (∃ tbl, loadTsvExcelData ["id"] (oneLine false).content = .ok tbl ∧ Loads ["id"] (oneLine false) tbl) ↔
      Counted (oneLine false).terminated (oneLine false).lines.length ∧
        ((oneLine false).lines = [] ∨ ["id"].length < 2 ^ 32) :=
  tsv_rows_iff (by decide) (oneLine false)

/-- A file that ends with a line break gives a row too many. -/
theorem not_tsv_rows : ¬ ∀ (names : List String) (f : TsvFile names.length), names.Nodup →
    ∃ tbl, loadTsvExcelData names f.content = .ok tbl ∧ Loads names f tbl := by
  intro h
  obtain ⟨tbl, htbl, hloads⟩ := h ["id"] (oneLine true) (by decide)
  have hrows : loadTsvExcelData ["id"] (oneLine true).content =
      .ok [[("id", ascii "1")], [("id", [])]] := by rfl
  rw [hrows] at htbl
  cases htbl
  cases List.Forall₂.length_eq hloads

end Yagips.Data

import Mathlib.Algebra.Order.Field.Power
import Mathlib.Data.Int.Log
import Mathlib.Data.Rat.Floor
import ComputeArmada.Adapter.Types
import ComputeArmada.Lib.Base64
import ComputeArmada.Lib.Utf8

/-!
# Reading a stream of JSON lines

`ndjson.ts`: the body of a response arrives in chunks that end anywhere, within a line or a character.

* `Engine` : the JavaScript engine, where the adapter repeats its words; `Engine.parse` : `JSON.parse`;
* `TextDecoder`, `readNdjson` : the reader;
* `readNdjson_eq` : the chunks make no difference: it reads the lines of the whole text.
-/

namespace ComputeArmada.Adapter

/-! ## Values -/

/-- What the engine says of texts and values other than those the adapter expects. -/
structure Engine where
  /-- The message of a `SyntaxError` of `JSON.parse`. -/
  syntaxError : String → String
  /-- `String` of a finite number. -/
  numberText : ℚ → String
  /-- `String` of what is no string. -/
  valueText : JsonValue → String
  /-- `Buffer.from` of what is no string. -/
  valueBytes : JsonValue → Except JsError (List UInt8)

/-- The nearest whole number, and of two the even one. -/
def roundHalfEven (q : ℚ) : ℤ :=
  let below := ⌊q⌋
  if q - below < 1 / 2 then below
  else if 1 / 2 < q - below then below + 1
  else if below % 2 = 0 then below else below + 1

/-- The double nearest to a number; none, where it is infinite. -/
def double (q : ℚ) : Option ℚ :=
  if q = 0 then some 0
  else
    let unit : ℚ := 2 ^ max (Int.log 2 |q| - 52) (-1074)
    let rounded := roundHalfEven (q / unit) * unit
    if 2 ^ 1024 ≤ |rounded| then none else some rounded

namespace Engine
variable (engine : Engine)

def number (q : ℚ) : Number :=
  match double q with
  | some value => { value := some value, text := engine.numberText value }
  | none => { value := none, text := if q < 0 then "-Infinity" else "Infinity" }

/-- `JSON.parse`. -/
def parse (text : List Char) : Except JsError JsonValue :=
  match Json.parse engine.number text with
  | some value => .ok value
  | none => .error { name := "SyntaxError", message := engine.syntaxError (String.ofList text) }

/-- `String(value)`. -/
def text : JsonValue → String
  | .string s => s
  | value => engine.valueText value

/-- `Buffer.from(value, 'base64')`. -/
def base64Bytes : JsonValue → Except JsError (List UInt8)
  | .string s => .ok (Base64.decode s.toList)
  | value => engine.valueBytes value

end Engine

theorem roundHalfEven_int (n : ℤ) : roundHalfEven (n : ℚ) = n := by
  simp [roundHalfEven]

theorem double_int {n : ℤ} (h : |n| < 2 ^ 53) : double (n : ℚ) = some (n : ℚ) := by
  unfold double
  split
  · rename_i hzero
    rw [hzero]
  · rename_i hne
    have hpos : (0 : ℚ) < |(n : ℚ)| := abs_pos.mpr hne
    have hlog : Int.log 2 |(n : ℚ)| < 53 := by
      have hlt : |(n : ℚ)| < (2 : ℚ) ^ (53 : ℤ) := by
        rw [← Int.cast_abs]
        exact_mod_cast h
      exact (Int.lt_zpow_iff_log_lt (by decide) hpos).mp (by exact_mod_cast hlt)
    obtain ⟨k, hk⟩ : ∃ k : ℕ, max (Int.log 2 |(n : ℚ)| - 52) (-1074) = -(k : ℤ) :=
      ⟨(-(max (Int.log 2 |(n : ℚ)| - 52) (-1074))).toNat, by omega⟩
    have hunit : ((n : ℚ) / (2 : ℚ) ^ (-(k : ℤ))) = ((n * 2 ^ k : ℤ) : ℚ) := by
      rw [zpow_neg, zpow_natCast, div_inv_eq_mul]
      push_cast
      rfl
    have hround : ((n * 2 ^ k : ℤ) : ℚ) * (2 : ℚ) ^ (-(k : ℤ)) = n := by
      rw [zpow_neg, zpow_natCast]
      push_cast
      rw [mul_assoc, mul_inv_cancel₀ (pow_ne_zero _ (by norm_num)), mul_one]
    simp only [hk, hunit, roundHalfEven_int, hround]
    rw [if_neg]
    rw [not_le, ← Int.cast_abs]
    have hlarge : (2 : ℤ) ^ 53 < 2 ^ 1024 := pow_lt_pow_right₀ (by norm_num) (by norm_num)
    have hcast : ((|n| : ℤ) : ℚ) < ((2 ^ 1024 : ℤ) : ℚ) := Int.cast_lt.mpr (h.trans hlarge)
    rwa [Int.cast_pow, Int.cast_ofNat] at hcast

theorem le_roundHalfEven {n : ℤ} {q : ℚ} (h : (n : ℚ) ≤ q) : n ≤ roundHalfEven q := by
  have hfloor : n ≤ ⌊q⌋ := Int.le_floor.mpr h
  unfold roundHalfEven
  dsimp only
  split
  · exact hfloor
  split
  · omega
  split <;> omega

theorem two_pow_le_double {q r : ℚ} {j : ℤ} (hj : -1074 ≤ j) (h : 2 ^ j ≤ q) (hr : double q = some r) : 2 ^ j ≤ r := by
  have hpos : (0 : ℚ) < q := lt_of_lt_of_le (by positivity) h
  have hlog : j ≤ Int.log 2 |q| := by
    rw [abs_of_pos hpos, ← Int.zpow_le_iff_le_log one_lt_two hpos]
    exact_mod_cast h
  have hle : (2 : ℚ) ^ Int.log 2 |q| ≤ q := by
    rw [abs_of_pos hpos]
    exact_mod_cast Int.zpow_log_le_self one_lt_two hpos
  obtain ⟨e, he⟩ : ∃ e, e = max (Int.log 2 |q| - 52) (-1074) := ⟨_, rfl⟩
  have hr' : r = roundHalfEven (q / 2 ^ e) * 2 ^ e := by
    unfold double at hr
    rw [if_neg hpos.ne', ← he] at hr
    dsimp only at hr
    split at hr
    · cases hr
    · exact (Option.some.inj hr).symm
  -- the larger of the power and the unit is a whole number of units
  obtain ⟨i, hij, hie, hi⟩ : ∃ i, j ≤ i ∧ e ≤ i ∧ (2 : ℚ) ^ i ≤ q := by
    rcases le_total e j with hunit | hunit
    · exact ⟨j, le_rfl, hunit, h⟩
    · exact ⟨Int.log 2 |q|, hlog, by omega, hle⟩
  obtain ⟨k, hk⟩ : ∃ k : ℕ, i - e = k := ⟨(i - e).toNat, by omega⟩
  have hsum : (2 : ℚ) ^ k * 2 ^ e = 2 ^ i := by
    rw [← zpow_natCast, ← hk, ← zpow_add₀ two_ne_zero, sub_add_cancel]
  have hdiv : (((2 ^ k : ℤ) : ℚ)) ≤ q / 2 ^ e := by
    rw [le_div_iff₀ (by positivity)]
    push_cast
    rwa [hsum]
  calc (2 : ℚ) ^ j ≤ 2 ^ i := zpow_le_zpow_right₀ one_le_two hij
    _ = ((2 ^ k : ℤ) : ℚ) * 2 ^ e := by
      push_cast
      rw [hsum]
    _ ≤ roundHalfEven (q / 2 ^ e) * 2 ^ e := by
      gcongr
      exact le_roundHalfEven hdiv
    _ = r := hr'.symm

/-! ## `readNdjson` -/

/-- A `TextDecoder` in the middle of a stream; it passes over a byte order mark at the beginning. -/
structure TextDecoder where
  pending : Utf8.Pending
  started : Bool
  deriving DecidableEq

namespace TextDecoder

def new : TextDecoder := { pending := .none, started := false }

def decode (d : TextDecoder) (bytes : List UInt8) : TextDecoder × List Char :=
  let read := Utf8.run d.pending bytes
  if d.started then ({ d with pending := read.1 }, read.2)
  else match read.2 with
    | [] => ({ d with pending := read.1 }, [])
    | c :: text => ({ pending := read.1, started := true }, if c.toNat = 0xfeff then text else c :: text)

theorem decode_append (d : TextDecoder) (bytes bytes' : List UInt8) : d.decode (bytes ++ bytes') =
    (((d.decode bytes).1.decode bytes').1, (d.decode bytes).2 ++ ((d.decode bytes).1.decode bytes').2) := by
  obtain ⟨pending, started⟩ := d
  cases started with
  | true => simp [decode, Utf8.run_append]
  | false =>
    cases hread : (Utf8.run pending bytes).2 with
    | nil =>
      cases hread' : (Utf8.run (Utf8.run pending bytes).1 bytes').2 <;> simp [decode, Utf8.run_append, hread, hread']
    | cons c text =>
      by_cases hmark : c.toNat = 0xfeff <;> simp [decode, Utf8.run_append, hread, hmark]

end TextDecoder

/-- The body of a response: its chunks, and the error that ends it. -/
structure ResponseBody where
  chunks : List (List UInt8)
  failure : Option JsError

/-- What a generator yields, and the error that ends it. -/
structure Yielded where
  values : List JsonValue
  failure : Option JsError

/-- One generator after another, unless the first one fails. -/
def Yielded.andThen (y y' : Yielded) : Yielded :=
  match y.failure with
  | some _ => y
  | none => { values := y.values ++ y'.values, failure := y'.failure }

/-- The lines of `buffered`, each without its newline, and what follows the last newline. -/
def takeLines : List Char → List (List Char) × List Char
  | [] => ([], [])
  | c :: text =>
    let (lines, rest) := takeLines text
    if c = '\n' then ([] :: lines, rest)
    else match lines with
      | [] => ([], c :: rest)
      | line :: lines => ((c :: line) :: lines, rest)

section
variable (engine : Engine)

/-- One parsed value per line, ignoring blank lines. -/
def parseLines : List (List Char) → Yielded
  | [] => { values := [], failure := none }
  | line :: lines =>
    let line := Js.trimList line
    if line = [] then parseLines lines
    else match engine.parse line with
      | .error cause => { values := [], failure := some cause }
      | .ok value =>
        let rest := parseLines lines
        { rest with values := value :: rest.values }

/-- The loop over the chunks, and what comes after it. -/
def readChunks (failure : Option JsError) (d : TextDecoder) (buffered : List Char) :
    List (List UInt8) → Yielded
  | [] =>
    match failure with
    | some cause => { values := [], failure := some cause }
    | none => parseLines engine [buffered]
  | chunk :: chunks =>
    let (d, text) := d.decode chunk
    let (lines, buffered) := takeLines (buffered ++ text)
    (parseLines engine lines).andThen (readChunks failure d buffered chunks)

def readNdjson (body : ResponseBody) : Yielded := readChunks engine body.failure .new [] body.chunks

end

/-! ## Chunks make no difference -/

theorem takeLines_cons (c : Char) (text : List Char) : takeLines (c :: text) =
    if c = '\n' then ([] :: (takeLines text).1, (takeLines text).2)
    else match (takeLines text).1 with
      | [] => ([], c :: (takeLines text).2)
      | line :: lines => ((c :: line) :: lines, (takeLines text).2) := rfl

theorem takeLines_of_notMem {text : List Char} (h : '\n' ∉ text) : takeLines text = ([], text) := by
  induction text with
  | nil => rfl
  | cons c text ih =>
    obtain ⟨hc, htext⟩ := not_or.mp (mt List.mem_cons.mpr h)
    rw [takeLines_cons, if_neg (Ne.symm hc), ih htext]

theorem takeLines_line {line : List Char} (h : '\n' ∉ line) (text : List Char) :
    takeLines (line ++ '\n' :: text) = (line :: (takeLines text).1, (takeLines text).2) := by
  induction line with
  | nil => simp [takeLines_cons]
  | cons c line ih =>
    obtain ⟨hc, hline⟩ := not_or.mp (mt List.mem_cons.mpr h)
    rw [List.cons_append, takeLines_cons, if_neg (Ne.symm hc), ih hline]

theorem notMem_takeLines (text : List Char) : '\n' ∉ (takeLines text).2 := by
  induction text with
  | nil => simp [takeLines]
  | cons c text ih =>
    rw [takeLines_cons]
    split
    · exact ih
    · rename_i hc
      split
      · simp [ih, Ne.symm hc]
      · exact ih

theorem takeLines_append (text text' : List Char) : takeLines (text ++ text') =
    ((takeLines text).1 ++ (takeLines ((takeLines text).2 ++ text')).1,
      (takeLines ((takeLines text).2 ++ text')).2) := by
  induction text with
  | nil => rfl
  | cons c text ih =>
    rw [List.cons_append, takeLines_cons, ih, takeLines_cons]
    by_cases hc : c = '\n'
    · simp [hc]
    · cases hlines : (takeLines text).1 <;> simp [hc, takeLines_cons]

section
variable {engine : Engine}

theorem parseLines_append (lines lines' : List (List Char)) :
    parseLines engine (lines ++ lines') = (parseLines engine lines).andThen (parseLines engine lines') := by
  induction lines with
  | nil => rfl
  | cons line lines ih =>
    simp only [List.cons_append, parseLines]
    split
    · exact ih
    · cases engine.parse (Js.trimList line) with
      | error cause => rfl
      | ok value =>
        rw [ih]
        cases hfailure : (parseLines engine lines).failure <;> simp [Yielded.andThen, hfailure]

theorem Yielded.andThen_assoc (y y' y'' : Yielded) : (y.andThen y').andThen y'' = y.andThen (y'.andThen y'') := by
  obtain ⟨values, failure⟩ := y
  obtain ⟨values', failure'⟩ := y'
  cases failure <;> cases failure' <;> simp [andThen]

/-- What comes after the last line. -/
def readRest (engine : Engine) (failure : Option JsError) (rest : List Char) : Yielded :=
  match failure with
  | some cause => { values := [], failure := some cause }
  | none => parseLines engine [rest]

theorem readChunks_eq (failure : Option JsError) (d : TextDecoder) {buffered : List Char} (hbuffered : '\n' ∉ buffered)
    (chunks : List (List UInt8)) : readChunks engine failure d buffered chunks =
      (parseLines engine (takeLines (buffered ++ (d.decode chunks.flatten).2)).1).andThen
        (readRest engine failure (takeLines (buffered ++ (d.decode chunks.flatten).2)).2) := by
  induction chunks generalizing d buffered with
  | nil =>
    have hnone : (d.decode []).2 = [] := by
      obtain ⟨pending, started⟩ := d
      cases started <;> rfl
    rw [List.flatten_nil, hnone, List.append_nil, takeLines_of_notMem hbuffered]
    cases failure <;> rfl
  | cons chunk chunks ih =>
    change (parseLines engine (takeLines (buffered ++ (d.decode chunk).2)).1).andThen
      (readChunks engine failure (d.decode chunk).1 (takeLines (buffered ++ (d.decode chunk).2)).2 chunks) = _
    rw [ih _ (notMem_takeLines _), List.flatten_cons, TextDecoder.decode_append, ← List.append_assoc,
      takeLines_append (buffered ++ _), parseLines_append, Yielded.andThen_assoc]

/-- The reader reads the lines of the whole text. -/
theorem readNdjson_eq (body : ResponseBody) : readNdjson engine body =
    (parseLines engine (takeLines (TextDecoder.new.decode body.chunks.flatten).2).1).andThen
      (readRest engine body.failure (takeLines (TextDecoder.new.decode body.chunks.flatten).2).2) :=
  readChunks_eq body.failure .new List.not_mem_nil body.chunks

/-! ## What is read -/

/-- The lines and what follows the last of them are the pieces between newlines. -/
theorem takeLines_splitOn (text : List Char) : (takeLines text).1 ++ [(takeLines text).2] = text.splitOn '\n' := by
  induction text with
  | nil => rfl
  | cons c text ih =>
    rw [List.splitOn_cons_eq_if_modifyHead, ← ih, takeLines_cons]
    by_cases hc : c = '\n'
    · simp [hc]
    · cases hlines : (takeLines text).1 <;> simp [hc]

/-- What is yielded, of pieces that are to be parsed: the value of each, up to the first that has none. -/
def Yields (engine : Engine) (pieces : List (List Char)) (y : Yielded) : Prop :=
  ∃ rest, pieces.map engine.parse = y.values.map .ok ++ rest ∧ rest.head? = y.failure.map .error

theorem reads_parseLines (lines : List (List Char)) :
    Yields engine ((lines.map Js.trimList).filter (· ≠ [])) (parseLines engine lines) := by
  induction lines with
  | nil => exact ⟨[], rfl, rfl⟩
  | cons line lines ih =>
    simp only [parseLines, List.map_cons]
    by_cases hblank : Js.trimList line = []
    · rw [if_pos hblank, List.filter_cons_of_neg (by simp [hblank])]
      exact ih
    · rw [if_neg hblank, List.filter_cons_of_pos (by simp [hblank])]
      cases hparse : engine.parse (Js.trimList line) with
      | error cause => exact ⟨_, by rw [List.map_cons, hparse]; rfl, rfl⟩
      | ok value =>
        obtain ⟨rest, hvalues, hfailure⟩ := ih
        exact ⟨rest, by rw [List.map_cons, hparse, hvalues]; rfl, hfailure⟩

theorem trimList_mark {c : Char} (h : c.toNat = 0xfeff) (text : List Char) :
    Js.trimList (c :: text) = Js.trimList text := by
  have hspace : Js.isSpace c = true := by simp [Js.isSpace, h]
  rw [Js.trimList, List.dropWhile_cons_of_pos hspace, Js.trimList]

/-- The pieces of a text and of what the decoder makes of it differ in nothing that is not trimmed. -/
theorem pieces_decode (cs : List Char) :
    ((TextDecoder.new.decode (Utf8.encode cs)).2.splitOn '\n').map Js.trimList = (cs.splitOn '\n').map Js.trimList := by
  unfold TextDecoder.decode TextDecoder.new
  rw [Utf8.run_encode]
  cases cs with
  | nil => rfl
  | cons c cs =>
    simp only [Bool.false_eq_true, if_false]
    by_cases hmark : c.toNat = 0xfeff
    · have hline : (c == '\n') = false := beq_eq_false_iff_ne.mpr fun h => absurd (h ▸ hmark) (by decide)
      rw [if_pos hmark, List.splitOn_cons_eq_if_modifyHead, hline, if_neg (by decide)]
      obtain ⟨piece, pieces, hpieces⟩ := List.exists_cons_of_ne_nil (List.splitOn_ne_nil '\n' cs)
      rw [hpieces, List.modifyHead_cons, List.map_cons, List.map_cons, trimList_mark hmark]
    · rw [if_neg hmark]

/-- **The chunks make no difference**: however the bytes are cut, the same values are yielded and the same
error, if any. Where the bytes are UTF-8 these are the values of the pieces between newlines, trimmed and not
blank, up to the first that is no JSON. -/
theorem reads_pieces (engine : Engine) (chunks chunks' : List (List UInt8)) (failure : Option JsError)
    (h : chunks.flatten = chunks'.flatten) :
    readNdjson engine { chunks, failure } = readNdjson engine { chunks := chunks', failure } ∧
    ∀ cs, chunks.flatten = Utf8.encode cs →
      Yields engine (((cs.splitOn '\n').map Js.trimList).filter (· ≠ []))
      (readNdjson engine { chunks, failure := none }) := by
  constructor
  · rw [readNdjson_eq, readNdjson_eq, h]
  · intro cs hcs
    rw [readNdjson_eq, hcs]
    simp only [readRest]
    rw [← parseLines_append, takeLines_splitOn, ← pieces_decode]
    exact reads_parseLines _

/-- An engine of few words. -/
def laconic : Engine where
  syntaxError _ := "Unexpected token"
  numberText q := toString q.num
  valueText _ := "[object Object]"
  valueBytes _ := .ok []

/-- A line, a blank one and a part of one, cut within the first. -/
theorem reads_pieces_cut :
    readNdjson laconic { chunks := [[91], [], [93, 10, 32, 10, 123]], failure := none } =
      readNdjson laconic { chunks := [[91, 93, 10, 32, 10, 123]], failure := none } ∧
    Yields laconic [['[', ']'], ['{']]
      (readNdjson laconic { chunks := [[91], [], [93, 10, 32, 10, 123]], failure := none }) := by
  obtain ⟨hsame, hreads⟩ := reads_pieces laconic [[91], [], [93, 10, 32, 10, 123]] [[91, 93, 10, 32, 10, 123]] none rfl
  have hpieces : (("[]\n \n\x7b".toList.splitOn '\n').map Js.trimList).filter (· ≠ []) =
    [['[', ']'], ['{']] := by decide
  exact ⟨hsame, hpieces ▸ hreads "[]\n \n\x7b".toList (by decide)⟩

end

end ComputeArmada.Adapter
